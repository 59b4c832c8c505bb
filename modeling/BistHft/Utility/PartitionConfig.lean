import BistHft.Client.OrderEntryClient
import BistHft.Lib.Collect
import BistHft.Utility.Json

-- The configuration of the partitions.

structure MarketDataPartitionConfig where
  name                   : List UInt8
  instrumentType         : InstrumentType
  multicastIp            : List UInt8
  multicastPort          : UInt16
  multicastInterfaceIp   : List UInt8
  unicastRequestIp       : List UInt8
  unicastRequestPort     : UInt16
  unicastDestinationIp   : List UInt8
  unicastDestinationPort : UInt16
  cpu                    : Int32
  deriving DecidableEq

-- The fields that the order entry client does not use itself
structure OrderEntryPartition extends OrderEntryPartitionConfig where
  name    : List UInt8
  ip      : List UInt8
  port    : UInt16
  portStr : List UInt8 := []
  deriving DecidableEq

structure OrderEntryConfig where
  clientAccount    : List UInt8 := []
  exchangeInfo     : List UInt8 := []
  partitionConfigs : List OrderEntryPartition := []
  deriving DecidableEq

structure ConfigParser where
  marketDataPartitionConfigs : List MarketDataPartitionConfig := []
  orderEntryConfig           : OrderEntryConfig := {}
  deriving DecidableEq

namespace ConfigParser

-- The ways in which the parser does not return `true`. What the library throws is not caught.
inductive Stop (ε : Type)
  | rejected
  | thrown (e : ε)
  deriving DecidableEq

abbrev Result (ε : Type) := ConfigParser × Except (Stop ε) Unit

variable {α : Type} [Json α]

abbrev Reads (α : Type) [Json α] (β : Type) := Except (Stop (Json.Error α)) β

def member (value : α) (key : String) : Reads α α :=
  (Json.member value key).mapError .thrown

-- The member, converted to the type that it is assigned to
def get {β : Type} (convert : α → Except (Json.Error α) β) (value : α) (key : String) : Reads α β :=
  (Json.member value key >>= convert).mapError .thrown

def isInactive (value : α) : Reads α Bool :=
  if Json.contains value "is_active" then
    (!·) <$> get Json.getBool value "is_active"
  else
    .ok false

-- The arguments of `LOG_INFO` are evaluated only if the level is enabled.
def logName (logs : Bool) (value : α) : Reads α Unit :=
  if logs then discard (get Json.getString value "name") else .ok ()

-- The body of the loop over the partitions, without the push.
def readPartition (logs : Bool) (type : InstrumentType) (instrumentJson partition : α) :
    Reads α (Option MarketDataPartitionConfig) := do
  if ← isInactive partition then
    logName logs partition
    return none
  logName logs partition
  let required := ["name", "multicast_port", "unicast_request_port", "unicast_destination_port", "cpu"]
  if required.all (Json.contains partition) then
    return some {
      name                   := ← get Json.getString partition "name"
      instrumentType         := type
      multicastIp            := ← get Json.getString instrumentJson "itch_multicast_ip"
      multicastInterfaceIp   := ← get Json.getString instrumentJson "itch_multicast_interface_ip"
      unicastRequestIp       := ← get Json.getString instrumentJson "rewinder_unicast_request_ip"
      unicastDestinationIp   := ← get Json.getString instrumentJson "rewinder_unicast_destination_ip"
      multicastPort          := ← get Json.getUInt16 partition "multicast_port"
      unicastRequestPort     := ← get Json.getUInt16 partition "unicast_request_port"
      unicastDestinationPort := ← get Json.getUInt16 partition "unicast_destination_port"
      cpu                    := ← get Json.getInt32 partition "cpu"
    }
  else
    throw .rejected

-- `value[key]` as an argument of what follows
def withMember (value : α) (key : String) (parser : ConfigParser) (next : α → Result (Json.Error α)) :
    Result (Json.Error α) :=
  match member value key with
  | .ok v    => next v
  | .error e => (parser, .error e)

def parseInstrumentConfig (logs : Bool) (parser : ConfigParser) (marketData : α) (type : InstrumentType)
    (key : String) : Result (Json.Error α) :=
  if Json.contains marketData key then
    withMember marketData key parser fun instrumentJson =>
      if Json.contains instrumentJson "partitions" then
        withMember instrumentJson "partitions" parser fun partitions =>
          let (configs, result) :=
            Collect.run (readPartition logs type instrumentJson) parser.marketDataPartitionConfigs (Json.elements partitions)
          ({ parser with marketDataPartitionConfigs := configs }, result)
      else
        (parser, .error .rejected)
  else
    (parser, .error .rejected)

-- The body of the loop over the two keys, without the push.
def readEntry (logs : Bool) (orderEntry : α) (key : String) : Reads α (Option OrderEntryPartition) := do
  if Json.contains orderEntry key then
    let entryJson ← member orderEntry key
    if ← isInactive entryJson then
      logName logs entryJson
      return none
    logName logs entryJson
    if ["name", "ip", "port", "username", "password"].all (Json.contains entryJson) then
      return some {
        name           := ← get Json.getString entryJson "name"
        instrumentType := if key = "equity" then .equity else .derivative
        ip             := ← get Json.getString entryJson "ip"
        port           := ← get Json.getUInt16 entryJson "port"
        username       := ← get Json.getString entryJson "username"
        password       := ← get Json.getString entryJson "password"
      }
    else
      throw .rejected
  else
    throw .rejected

def parseOrderEntryConfig (logs : Bool) (parser : ConfigParser) (orderEntry : α) : Result (Json.Error α) :=
  if ["client_account", "exchange_info"].all (Json.contains orderEntry) then
    match get Json.getString orderEntry "client_account" with
    | .error e          => (parser, .error e)
    | .ok clientAccount =>
      let parser := { parser with orderEntryConfig.clientAccount := clientAccount }
      match get Json.getString orderEntry "exchange_info" with
      | .error e         => (parser, .error e)
      | .ok exchangeInfo =>
        let parser := { parser with orderEntryConfig.exchangeInfo := exchangeInfo }
        let (configs, result) :=
          Collect.run (readEntry logs orderEntry) parser.orderEntryConfig.partitionConfigs ["equity", "derivative"]
        ({ parser with orderEntryConfig.partitionConfigs := configs }, result)
  else
    (parser, .error .rejected)

-- `if (!parse...) return false;`
def andThen {ε : Type} (result : Result ε) (next : ConfigParser → Result ε) : Result ε :=
  match result with
  | (parser, .ok _)    => next parser
  | (parser, .error e) => (parser, .error e)

-- There is no text if the file cannot be opened.
def parseConfig (α : Type) [Json α] (logs : Bool) (parser : ConfigParser) (file : Option (Json.Text α)) :
    Result (Json.Error α) :=
  match (file.bind Json.parse : Option α) with
  | none   => (parser, .error .rejected)
  | some j =>
    if ["market_data", "order_entry"].all (Json.contains j) then
      let parse type key parser := withMember j "market_data" parser fun marketData =>
        parser.parseInstrumentConfig logs marketData type key
      andThen (parse .equity "equity" parser) fun parser =>
        andThen (parse .derivative "derivative" parser) fun parser =>
          withMember j "order_entry" parser fun orderEntry => parser.parseOrderEntryConfig logs orderEntry
    else
      (parser, .error .rejected)

end ConfigParser
