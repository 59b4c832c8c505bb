import BistHft.Utility.PartitionConfig

-- What the parser makes of a configuration, and what it leaves behind when it gives up.

-- What a configuration gives, with the flag `is_active` where it has one.

structure PartitionSource where
  name                   : List UInt8
  isActive               : Option Bool
  multicastPort          : UInt16
  unicastRequestPort     : UInt16
  unicastDestinationPort : UInt16
  cpu                    : Int32

structure InstrumentSource where
  multicastIp          : List UInt8
  multicastInterfaceIp : List UInt8
  unicastRequestIp     : List UInt8
  unicastDestinationIp : List UInt8
  partitions           : List PartitionSource

structure EntrySource where
  name     : List UInt8
  isActive : Option Bool
  ip       : List UInt8
  port     : UInt16
  username : List UInt8
  password : List UInt8

structure ConfigSource where
  equity          : InstrumentSource
  derivative      : InstrumentSource
  clientAccount   : List UInt8
  exchangeInfo    : List UInt8
  equityEntry     : EntrySource
  derivativeEntry : EntrySource

section Files

-- A file gives a configuration under the keys that the parser knows, if the library finds values there
-- and can convert them. It may hold anything else besides.

variable {α : Type} [Json α]

open Json

inductive IsActive (value : α) : Option Bool → Prop
  | absent (h : ¬contains value "is_active") : IsActive value none
  | flag (b : Bool) (h : Has getBool value "is_active" b) : IsActive value (some b)

structure PartitionSource.Gives (value : α) (p : PartitionSource) : Prop where
  name                   : Has getString value "name" p.name
  isActive               : IsActive value p.isActive
  multicastPort          : Has getUInt16 value "multicast_port" p.multicastPort
  unicastRequestPort     : Has getUInt16 value "unicast_request_port" p.unicastRequestPort
  unicastDestinationPort : Has getUInt16 value "unicast_destination_port" p.unicastDestinationPort
  cpu                    : Has getInt32 value "cpu" p.cpu

structure InstrumentSource.Gives (value : α) (i : InstrumentSource) : Prop where
  multicastIp          : Has getString value "itch_multicast_ip" i.multicastIp
  multicastInterfaceIp : Has getString value "itch_multicast_interface_ip" i.multicastInterfaceIp
  unicastRequestIp     : Has getString value "rewinder_unicast_request_ip" i.unicastRequestIp
  unicastDestinationIp : Has getString value "rewinder_unicast_destination_ip" i.unicastDestinationIp
  partitions           : ∃ values, member value "partitions" = .ok values ∧
    List.Forall₂ PartitionSource.Gives (elements values) i.partitions

structure EntrySource.Gives (value : α) (e : EntrySource) : Prop where
  name     : Has getString value "name" e.name
  isActive : IsActive value e.isActive
  ip       : Has getString value "ip" e.ip
  port     : Has getUInt16 value "port" e.port
  username : Has getString value "username" e.username
  password : Has getString value "password" e.password

structure ConfigSource.GivesMarketData (value : α) (c : ConfigSource) : Prop where
  equity     : ∃ equity, member value "equity" = .ok equity ∧ c.equity.Gives equity
  derivative : ∃ derivative, member value "derivative" = .ok derivative ∧ c.derivative.Gives derivative

structure ConfigSource.GivesOrderEntry (value : α) (c : ConfigSource) : Prop where
  clientAccount : Has getString value "client_account" c.clientAccount
  exchangeInfo  : Has getString value "exchange_info" c.exchangeInfo
  equity        : ∃ equity, member value "equity" = .ok equity ∧ c.equityEntry.Gives equity
  derivative    : ∃ derivative, member value "derivative" = .ok derivative ∧ c.derivativeEntry.Gives derivative

structure ConfigSource.Gives (value : α) (c : ConfigSource) : Prop where
  marketData : ∃ marketData, member value "market_data" = .ok marketData ∧ c.GivesMarketData marketData
  orderEntry : ∃ orderEntry, member value "order_entry" = .ok orderEntry ∧ c.GivesOrderEntry orderEntry

end Files

section Configs

-- The configurations of the partitions that have not been switched off.

def PartitionSource.config (i : InstrumentSource) (type : InstrumentType) (p : PartitionSource) :
    Option MarketDataPartitionConfig :=
  if p.isActive = some false then
    none
  else
    some {
      name                   := p.name
      instrumentType         := type
      multicastIp            := i.multicastIp
      multicastPort          := p.multicastPort
      multicastInterfaceIp   := i.multicastInterfaceIp
      unicastRequestIp       := i.unicastRequestIp
      unicastRequestPort     := p.unicastRequestPort
      unicastDestinationIp   := i.unicastDestinationIp
      unicastDestinationPort := p.unicastDestinationPort
      cpu                    := p.cpu
    }

def InstrumentSource.configs (type : InstrumentType) (i : InstrumentSource) : List MarketDataPartitionConfig :=
  i.partitions.filterMap (·.config i type)

def EntrySource.config (type : InstrumentType) (e : EntrySource) : Option OrderEntryPartition :=
  if e.isActive = some false then
    none
  else
    some {
      name           := e.name
      instrumentType := type
      ip             := e.ip
      port           := e.port
      username       := e.username
      password       := e.password
    }

def ConfigSource.marketDataConfigs (c : ConfigSource) : List MarketDataPartitionConfig :=
  c.equity.configs .equity ++ c.derivative.configs .derivative

def ConfigSource.orderEntryConfigs (c : ConfigSource) : List OrderEntryPartition :=
  [c.equityEntry.config .equity, c.derivativeEntry.config .derivative].reduceOption

end Configs

namespace ConfigParser

variable {α : Type} [Json α] {logs : Bool} {type : InstrumentType} {parser : ConfigParser} {c : ConfigSource} {key : String}
variable {file : Option (Json.Text α)}

section Lookups

variable {value v : α} {s : List UInt8} {b? : Option Bool}

theorem contains_of_member [LawfulJson α] (h : Json.member value key = .ok v) : Json.contains value key :=
  (LawfulJson.contains_iff value key).mpr ⟨v, h⟩

theorem member_of_ok (h : Json.member value key = .ok v) : member value key = .ok v := by
  rw [member, h]
  rfl

theorem get_of_has {β : Type} {convert : α → Except (Json.Error α) β} {x : β} (h : Json.Has convert value key x) :
    get convert value key = .ok x := by
  obtain ⟨v, hv, hx⟩ := h
  rw [get, hv]
  exact congrArg (Except.mapError Stop.thrown) hx

theorem isInactive_of_isActive [LawfulJson α] (h : IsActive value b?) : isInactive value = .ok (b? = some false) := by
  rw [isInactive]
  cases h
  case absent h =>
    rw [if_neg h]
    rfl
  case flag b h =>
    rw [if_pos h.contains, get_of_has h]
    cases b <;> rfl

theorem logName_of_has (h : Json.Has Json.getString value "name" s) : logName logs value = .ok () := by
  rw [logName, get_of_has h]
  cases logs <;> rfl

theorem withMember_of_member {next : α → Result (Json.Error α)} (h : Json.member value key = .ok v) :
    withMember value key parser next = next v := by
  rw [withMember, member_of_ok h]

end Lookups

section Readers

variable [LawfulJson α] {i : InstrumentSource} {p : PartitionSource} {e : EntrySource}
variable {instrumentJson partition orderEntry entryJson : α}

theorem readPartition_of_given (hi : i.Gives instrumentJson) (hp : p.Gives partition) :
    readPartition logs type instrumentJson partition = .ok (p.config i type) := by
  have hc : ["name", "multicast_port", "unicast_request_port", "unicast_destination_port", "cpu"].all (Json.contains partition) := by
    simp [hp.name.contains, hp.multicastPort.contains, hp.unicastRequestPort.contains, hp.unicastDestinationPort.contains,
      hp.cpu.contains]
  rw [readPartition, isInactive_of_isActive hp.isActive, logName_of_has hp.name, if_pos hc, PartitionSource.config]
  cases Decidable.em (p.isActive = some false)
  case inl h =>
    rw [if_pos h, decide_eq_true h]
    rfl
  case inr h =>
    rw [if_neg h, decide_eq_false h, get_of_has hp.name, get_of_has hi.multicastIp,
      get_of_has hi.multicastInterfaceIp, get_of_has hi.unicastRequestIp, get_of_has hi.unicastDestinationIp,
      get_of_has hp.multicastPort, get_of_has hp.unicastRequestPort, get_of_has hp.unicastDestinationPort,
      get_of_has hp.cpu]
    rfl

theorem parseInstrumentConfig_of_given {marketData : α} (hm : Json.member marketData key = .ok instrumentJson)
    (hi : i.Gives instrumentJson) :
    parser.parseInstrumentConfig logs marketData type key =
      ({ parser with marketDataPartitionConfigs := parser.marketDataPartitionConfigs ++ i.configs type }, .ok ()) := by
  have ⟨values, hv, hp⟩ := hi.partitions
  have hr : Collect.run (readPartition logs type instrumentJson) parser.marketDataPartitionConfigs (Json.elements values) =
      (parser.marketDataPartitionConfigs ++ i.configs type, .ok ()) :=
    Collect.run_of_forall₂ (hp.imp fun _ _ => readPartition_of_given hi)
  rw [parseInstrumentConfig, if_pos (contains_of_member hm), withMember_of_member hm, if_pos (contains_of_member hv),
    withMember_of_member hv, hr]

theorem readEntry_of_given (ho : Json.member orderEntry key = .ok entryJson) (he : e.Gives entryJson) :
    readEntry logs orderEntry key = .ok (e.config <| if key = "equity" then .equity else .derivative) := by
  have hc : ["name", "ip", "port", "username", "password"].all (Json.contains entryJson) := by
    simp [he.name.contains, he.ip.contains, he.port.contains, he.username.contains, he.password.contains]
  rw [readEntry, if_pos (contains_of_member ho), member_of_ok ho, EntrySource.config]
  dsimp only [bind, Except.bind]
  rw [isInactive_of_isActive he.isActive, logName_of_has he.name, if_pos hc]
  cases Decidable.em (e.isActive = some false)
  case inl h =>
    rw [if_pos h, decide_eq_true h]
    rfl
  case inr h =>
    rw [if_neg h, decide_eq_false h, get_of_has he.name, get_of_has he.ip, get_of_has he.port,
      get_of_has he.username, get_of_has he.password]
    rfl

theorem parseOrderEntryConfig_of_given (ho : c.GivesOrderEntry orderEntry) :
    parser.parseOrderEntryConfig logs orderEntry = ({
      parser with orderEntryConfig := {
        clientAccount    := c.clientAccount
        exchangeInfo     := c.exchangeInfo
        partitionConfigs := parser.orderEntryConfig.partitionConfigs ++ c.orderEntryConfigs
      }
    }, .ok ()) := by
  have ⟨equity, hq, he⟩ := ho.equity
  have ⟨derivative, hr, hd⟩ := ho.derivative
  have hc : ["client_account", "exchange_info"].all (Json.contains orderEntry) := by
    simp [ho.clientAccount.contains, ho.exchangeInfo.contains]
  have hr : Collect.run (readEntry logs orderEntry) parser.orderEntryConfig.partitionConfigs ["equity", "derivative"] =
      (parser.orderEntryConfig.partitionConfigs ++ c.orderEntryConfigs, .ok ()) :=
    Collect.run_of_forall₂ (f := id) (.cons (readEntry_of_given hq he) (.cons (readEntry_of_given hr hd) .nil))
  rw [parseOrderEntryConfig, if_pos hc, get_of_has ho.clientAccount]
  simp only [get_of_has ho.exchangeInfo, hr]

-- Every configuration is read as it was written, after what has been read before.
theorem parseConfig_of_given {value : α} (hv : file.bind Json.parse = some value) (h : c.Gives value) :
    parser.parseConfig α logs file = ({
      marketDataPartitionConfigs := parser.marketDataPartitionConfigs ++ c.marketDataConfigs
      orderEntryConfig := {
        clientAccount    := c.clientAccount
        exchangeInfo     := c.exchangeInfo
        partitionConfigs := parser.orderEntryConfig.partitionConfigs ++ c.orderEntryConfigs
      }
    }, .ok ()) := by
  obtain ⟨marketData, hm, ⟨⟨equity, hq, he⟩, derivative, hr, hd⟩⟩ := h.marketData
  obtain ⟨orderEntry, ho, hs⟩ := h.orderEntry
  have hc : ["market_data", "order_entry"].all (Json.contains value) := by
    simp [contains_of_member hm, contains_of_member ho]
  rw [parseConfig, hv]
  dsimp only
  rw [if_pos hc, withMember_of_member hm, parseInstrumentConfig_of_given hq he, andThen, withMember_of_member hm,
    parseInstrumentConfig_of_given hr hd, andThen, withMember_of_member ho, parseOrderEntryConfig_of_given hs,
    List.append_assoc]
  rfl

end Readers

section Samples

def samplePartition : PartitionSource where
  name                   := [0x45, 0x31]
  isActive               := none
  multicastPort          := 21001
  unicastRequestPort     := 53300
  unicastDestinationPort := 24001
  cpu                    := -1

def sampleConfig : ConfigSource where
  equity          := ⟨[0x32], [0x31], [0x33], [0x34], [samplePartition, { samplePartition with isActive := some false }]⟩
  derivative      := ⟨[], [], [], [], []⟩
  clientAccount   := [0x41]
  exchangeInfo    := [0x42]
  equityEntry     := ⟨[0x45], some true, [0x31], 6642, [0x55], [0x50]⟩
  derivativeEntry := ⟨[0x44], some false, [], 0, [], []⟩

def samplePartitionMembers : List (String × SampleJson) := [
  ("cpu", .number (-1)), ("multicast_port", .number 21001), ("name", .string [0x45, 0x31]),
  ("unicast_destination_port", .number 24001), ("unicast_request_port", .number 53300)
]

-- The parser does not know the key of the snapshots.
def sampleFile : SampleJson := .object [
  ("market_data", .object [
    ("derivative", .object [
      ("itch_multicast_interface_ip", .string []), ("itch_multicast_ip", .string []), ("partitions", .array []),
      ("rewinder_unicast_destination_ip", .string []), ("rewinder_unicast_request_ip", .string [])
    ]),
    ("equity", .object [
      ("glimpse_destination_ip", .string [0x39]), ("itch_multicast_interface_ip", .string [0x31]),
      ("itch_multicast_ip", .string [0x32]),
      ("partitions", .array [
        .object samplePartitionMembers, .object (("is_active", .boolean false) :: samplePartitionMembers)
      ]),
      ("rewinder_unicast_destination_ip", .string [0x34]), ("rewinder_unicast_request_ip", .string [0x33])
    ])
  ]),
  ("order_entry", .object [
    ("client_account", .string [0x41]),
    ("derivative", .object [
      ("ip", .string []), ("is_active", .boolean false), ("name", .string [0x44]), ("password", .string []),
      ("port", .number 0), ("username", .string [])
    ]),
    ("equity", .object [
      ("ip", .string [0x31]), ("is_active", .boolean true), ("name", .string [0x45]), ("password", .string [0x50]),
      ("port", .number 6642), ("username", .string [0x55])
    ]),
    ("exchange_info", .string [0x42])
  ])
]

theorem sampleFile_gives : sampleConfig.Gives sampleFile where
  marketData := by
    refine ⟨_, rfl, ⟨_, rfl, ⟨⟨_, rfl, rfl⟩, ⟨_, rfl, rfl⟩, ⟨_, rfl, rfl⟩, ⟨_, rfl, rfl⟩, _, rfl, ?_⟩⟩,
      ⟨_, rfl, ⟨⟨_, rfl, rfl⟩, ⟨_, rfl, rfl⟩, ⟨_, rfl, rfl⟩, ⟨_, rfl, rfl⟩, _, rfl, .nil⟩⟩⟩
    have hf : Json.contains (SampleJson.object samplePartitionMembers) "is_active" = false := rfl
    have h₁ : samplePartition.Gives (SampleJson.object samplePartitionMembers) :=
      ⟨⟨_, rfl, rfl⟩, .absent (Bool.eq_false_iff.mp hf), ⟨_, rfl, rfl⟩, ⟨_, rfl, rfl⟩, ⟨_, rfl, rfl⟩, ⟨_, rfl, rfl⟩⟩
    exact .cons h₁ (.cons ⟨⟨_, rfl, rfl⟩, .flag false ⟨_, rfl, rfl⟩, ⟨_, rfl, rfl⟩, ⟨_, rfl, rfl⟩, ⟨_, rfl, rfl⟩, ⟨_, rfl, rfl⟩⟩ .nil)
  orderEntry :=
    ⟨_, rfl, ⟨_, rfl, rfl⟩, ⟨_, rfl, rfl⟩,
      ⟨_, rfl, ⟨⟨_, rfl, rfl⟩, .flag true ⟨_, rfl, rfl⟩, ⟨_, rfl, rfl⟩, ⟨_, rfl, rfl⟩, ⟨_, rfl, rfl⟩, ⟨_, rfl, rfl⟩⟩⟩,
      ⟨_, rfl, ⟨⟨_, rfl, rfl⟩, .flag false ⟨_, rfl, rfl⟩, ⟨_, rfl, rfl⟩, ⟨_, rfl, rfl⟩, ⟨_, rfl, rfl⟩, ⟨_, rfl, rfl⟩⟩⟩⟩

theorem parseConfig_of_given_sample : parseConfig SampleJson true {} (some sampleFile) = ({
    marketDataPartitionConfigs := [⟨[0x45, 0x31], .equity, [0x32], 21001, [0x31], [0x33], 53300, [0x34], 24001, -1⟩]
    orderEntryConfig := {
      clientAccount    := [0x41]
      exchangeInfo     := [0x42]
      partitionConfigs := sampleConfig.orderEntryConfigs
    }
  }, .ok ()) :=
  parseConfig_of_given rfl sampleFile_gives

end Samples

section Appending

-- What the parser already holds stays where it is, and decides nothing.
structure Appends {ε : Type} (parse : ConfigParser → Result ε) : Prop where
  result parser : (parse parser).2 = (parse {}).2
  marketData parser :
    (parse parser).1.marketDataPartitionConfigs =
      parser.marketDataPartitionConfigs ++ (parse {}).1.marketDataPartitionConfigs
  orderEntry parser :
    (parse parser).1.orderEntryConfig.partitionConfigs =
      parser.orderEntryConfig.partitionConfigs ++ (parse {}).1.orderEntryConfig.partitionConfigs

section Results

variable {ε : Type} {parse next : ConfigParser → Result ε} {result : Result ε} {e : Stop ε} {u : Unit}

theorem Appends.fails : Appends fun parser => (parser, .error e) where
  result _     := rfl
  marketData _ := (List.append_nil _).symm
  orderEntry _ := (List.append_nil _).symm

theorem andThen_of_ok (h : result.2 = .ok u) : andThen result next = next result.1 := by
  obtain ⟨parser, r⟩ := result
  subst h
  rfl

theorem andThen_of_error (h : result.2 = .error e) : andThen result next = result := by
  obtain ⟨parser, r⟩ := result
  subst h
  rfl

theorem Appends.andThen (hp : Appends parse) (hn : Appends next) :
    Appends fun parser => ConfigParser.andThen (parse parser) next := by
  cases h : (parse {}).2
  case error e =>
    have he parser : ConfigParser.andThen (parse parser) next = parse parser :=
      andThen_of_error ((hp.result parser).trans h)
    simpa only [he] using hp
  case ok u =>
    have ho parser : ConfigParser.andThen (parse parser) next = next (parse parser).1 :=
      andThen_of_ok ((hp.result parser).trans h)
    simp only [ho]
    refine ⟨fun parser => ?result, fun parser => ?marketData, fun parser => ?orderEntry⟩
    case result     => rw [hn.result, hn.result (parse {}).1]
    case marketData => rw [hn.marketData, hn.marketData (parse {}).1, hp.marketData, List.append_assoc]
    case orderEntry => rw [hn.orderEntry, hn.orderEntry (parse {}).1, hp.orderEntry, List.append_assoc]

end Results

variable {value marketData orderEntry : α}

theorem withMember_appends {next : ConfigParser → α → Result (Json.Error α)} (h : ∀ v, Appends (next · v)) :
    Appends fun parser => withMember value key parser (next parser) := by
  simp only [withMember]
  split
  case h_1 v _ => exact h v
  case h_2     => exact .fails

theorem parseInstrumentConfig_appends :
    Appends fun parser => parser.parseInstrumentConfig logs marketData type key := by
  simp only [parseInstrumentConfig]
  split
  case isFalse => exact .fails
  case isTrue  =>
    refine withMember_appends fun instrumentJson => ?_
    split
    case isFalse => exact .fails
    case isTrue  =>
      refine withMember_appends fun partitions => ?_
      refine ⟨fun parser => ?result, fun parser => ?marketData, fun parser => (List.append_nil _).symm⟩
      case result     => exact Collect.run_snd
      case marketData => exact Collect.run_fst

theorem parseOrderEntryConfig_appends : Appends fun parser => parser.parseOrderEntryConfig logs orderEntry := by
  simp only [parseOrderEntryConfig]
  split
  case isFalse => exact .fails
  case isTrue  =>
    split
    case h_1 => exact .fails
    case h_2 clientAccount _ =>
      split
      case h_1 => exact ⟨fun _ => rfl, fun _ => (List.append_nil _).symm, fun _ => (List.append_nil _).symm⟩
      case h_2 exchangeInfo _ =>
        refine ⟨fun parser => ?result, fun parser => (List.append_nil _).symm, fun parser => ?orderEntry⟩
        case result     => exact Collect.run_snd
        case orderEntry => exact Collect.run_fst

-- Whatever the file holds and wherever the parser gives up, nothing that has been read before is lost.
theorem parseConfig_appends : Appends fun parser => parser.parseConfig α logs file := by
  simp only [parseConfig]
  split
  case h_1 => exact .fails
  case h_2 j _ =>
    split
    case isFalse => exact .fails
    case isTrue  =>
      have hp type key : Appends fun parser => withMember j "market_data" parser fun marketData =>
          parser.parseInstrumentConfig logs marketData type key :=
        withMember_appends fun _ => parseInstrumentConfig_appends
      exact (hp .equity "equity").andThen <| (hp .derivative "derivative").andThen <|
        withMember_appends fun _ => parseOrderEntryConfig_appends

end Appending

end ConfigParser
