import Walletts.Primitives
/-!
# The stream of blockchain events

`getObservableBlockchain` takes the messages of a node from a socket to a
subscriber: the socket passes on what it has subscribed to, an emitter hands
each message on as a pair of its topic and its payload in hexadecimal, and two
filtered and decoded streams of these pairs are merged.
-/

namespace Walletts

/-! ## Merged streams -/

structure Pipeline (ε E A : Type) where
  accepts : E → Bool
  map : E → Except ε A

structure Subscriber (ε A : Type) where
  received : List A
  error : Option ε

namespace Subscriber

variable {ε E A : Type}

def start : Subscriber ε A := ⟨[], none⟩

/-- One event in one pipeline.  An error ends the merged stream. -/
def next (s : Subscriber ε A) (event : E) (pipeline : Pipeline ε E A) : Subscriber ε A :=
  match s.error with
  | some _ => s
  | none =>
      if pipeline.accepts event then
        match pipeline.map event with
        | .ok a => ⟨s.received ++ [a], none⟩
        | .error e => ⟨s.received, some e⟩
      else s

def merge (pipelines : List (Pipeline ε E A)) (s : Subscriber ε A) (events : List E) :
    Subscriber ε A :=
  events.foldl (fun s event => pipelines.foldl (fun s => s.next event) s) s

theorem next_of_not_accepts (s : Subscriber ε A) {event : E} {pipeline : Pipeline ε E A}
    (h : pipeline.accepts event = false) : s.next event pipeline = s := by
  unfold next
  split
  · rfl
  · rw [h]
    rfl

theorem foldl_next (s : Subscriber ε A) {event : E} {pipelines : List (Pipeline ε E A)}
    (h : ∀ pipeline ∈ pipelines, pipeline.accepts event = false) :
    pipelines.foldl (fun s => s.next event) s = s := by
  induction pipelines with
  | nil => rfl
  | cons pipeline pipelines ih =>
      rw [List.foldl_cons, next_of_not_accepts s (h pipeline List.mem_cons_self)]
      exact ih fun p hp => h p (List.mem_cons_of_mem _ hp)

theorem merge_of_not_accepts {pipelines : List (Pipeline ε E A)} {events : List E}
    (h : ∀ event ∈ events, ∀ pipeline ∈ pipelines, pipeline.accepts event = false)
    (s : Subscriber ε A) : merge pipelines s events = s := by
  induction events with
  | nil => rfl
  | cons event events ih =>
      rw [merge, List.foldl_cons, foldl_next s (h event List.mem_cons_self)]
      exact ih fun e he => h e (List.mem_cons_of_mem _ he)

end Subscriber

/-! ## From the node to the subscriber -/

inductive ObservationType
  | rawtx
  | rawblock
  deriving DecidableEq

def ObservationType.text : ObservationType → String
  | rawtx => "rawtx"
  | rawblock => "rawblock"

structure ZmqMessage where
  topic : ObservationType
  payload : Buffer

def asciiBytes (text : String) : Buffer := text.toList.map fun c => .ofNat c.toNat

/-- A topic in the `message` handler: a Buffer, where the types say a text. -/
inductive JsTopic
  | buffer (bytes : Buffer)
  | text (s : String)
  deriving DecidableEq

/-- `topic === text`: a Buffer is an object and equals no text. -/
def JsTopic.strictEq : JsTopic → String → Bool
  | .buffer _, _ => false
  | .text s, t => s = t

namespace BlockchainEventEmitter

def subscriptions : List String := ["rawblock"]

/-- A `sub` socket receives the messages whose topic begins with a subscription. -/
def receives (topic : ObservationType) : Bool :=
  subscriptions.any fun subscription =>
    (asciiBytes subscription).isPrefixOf (asciiBytes topic.text)

def emitted (messages : List ZmqMessage) : List (JsTopic × String) :=
  (messages.filter fun message => receives message.topic).map fun message =>
    (.buffer (asciiBytes message.topic.text), HexText.ofBytes message.payload)

theorem receives_iff (topic : ObservationType) : receives topic ↔ topic = .rawblock := by
  cases topic <;> decide

theorem emitted_eq (messages : List ZmqMessage) :
    emitted messages = (messages.filter fun message => message.topic = .rawblock).map fun message =>
      (.buffer (asciiBytes "rawblock"), HexText.ofBytes message.payload) := by
  induction messages with
  | nil => rfl
  | cons message messages ih =>
      cases htopic : message.topic <;>
        simpa [emitted, htopic, receives_iff, ObservationType.text] using ih

end BlockchainEventEmitter

structure DecoderLib (Block Tx : Type) where
  blockFromHex : String → Except JsError Block
  transactionFromHex : String → Except JsError Tx

inductive Arrived (Block Tx : Type)
  | block (block : Block)
  | transaction (tx : Tx)

section Observable

variable {Block Tx : Type} (lib : DecoderLib Block Tx)

def blockPipeline : Pipeline JsError (JsTopic × String) (Arrived Block Tx) where
  accepts event := event.1.strictEq "rawblock"
  map event := do return .block (← lib.blockFromHex event.2)

def transactionPipeline : Pipeline JsError (JsTopic × String) (Arrived Block Tx) where
  accepts event := event.1.strictEq "rawtx"
  map event := do return .transaction (← lib.transactionFromHex event.2)

/-- A subscriber of `getObservableBlockchain`, after the node has published
these messages. -/
def getObservableBlockchain (messages : List ZmqMessage) :
    Subscriber JsError (Arrived Block Tx) :=
  Subscriber.merge [blockPipeline lib, transactionPipeline lib] .start
    (BlockchainEventEmitter.emitted messages)

def ZmqMessage.decode (message : ZmqMessage) : Option (Arrived Block Tx) :=
  let hex := HexText.ofBytes message.payload
  match message.topic with
  | .rawblock => (lib.blockFromHex hex).toOption.map .block
  | .rawtx => (lib.transactionFromHex hex).toOption.map .transaction

/-- Every topic arrives as a Buffer, and no filter lets one through. -/
theorem getObservableBlockchain_eq (messages : List ZmqMessage) :
    getObservableBlockchain lib messages = .start := by
  apply Subscriber.merge_of_not_accepts
  intro event hevent pipeline hpipeline
  obtain ⟨message, -, rfl⟩ := List.mem_map.mp hevent
  simp only [List.mem_cons, List.not_mem_nil, or_false] at hpipeline
  rcases hpipeline with rfl | rfl <;> rfl

/-- A subscriber receives what the well-formed messages say, in their order,
exactly when no message is well formed. -/
theorem received_iff (messages : List ZmqMessage) :
    (getObservableBlockchain lib messages).received = messages.filterMap (ZmqMessage.decode lib) ↔
      ∀ message ∈ messages, message.decode lib = none := by
  rw [getObservableBlockchain_eq]
  exact eq_comm.trans List.filterMap_eq_nil_iff

end Observable

def sampleDecoders : DecoderLib Unit Unit where
  blockFromHex hex := if hex = "00" then .ok () else .error ⟨.error, "Buffer too small"⟩
  transactionFromHex hex := if hex = "00" then .ok () else .error ⟨.error, "Buffer too small"⟩

/-- A well-formed block is published, and nothing is received. -/
theorem received_misses_block :
    (getObservableBlockchain sampleDecoders [⟨.rawblock, [0]⟩]).received = [] ∧
      [(⟨.rawblock, [0]⟩ : ZmqMessage)].filterMap (ZmqMessage.decode sampleDecoders) =
        [.block ()] :=
  ⟨rfl, rfl⟩

end Walletts
