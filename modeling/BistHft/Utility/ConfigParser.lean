import BistHft.Utility.Json

-- The file in which the index of the last order token is kept between two sessions.

structure AppParameters where
  lastUsedTokenIndex : UInt32
  deriving DecidableEq

namespace ConfigParser

variable (α : Type) [Json α]

-- There is no text if the file cannot be opened, and no result where the source returns `false`.
def parseAppParameters (file : Option (Json.Text α)) : Except (Json.Error α) (Option AppParameters) :=
  match (file.bind Json.parse : Option α) with
  | none   => .ok none
  | some j =>
    if Json.contains j "last_used_order_token_index" then do
      let index ← Json.member j "last_used_order_token_index"
      if Json.isNumberInteger index then
        return some { lastUsedTokenIndex := ← Json.getUInt32 index }
      else
        return none
    else
      .ok none

end ConfigParser
