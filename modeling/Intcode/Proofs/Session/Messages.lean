import Intcode.Proofs.Session.Written
import Intcode.Proofs.Text.Numeral

/-!
# Messages

What is told on standard error, message by message, and what each message looks like there. An event
is told in one message or in none, and the text on standard error is that of the messages that are
heard, one after the other. All of them are heard, unless it is asked to be quiet; then all are
heard that do not merely inform.
-/

namespace Intcode

/-- Something that is told on standard error. -/
inductive Message where
  | info (words : String)
  | warning (words : String)
  | error (words : String)
  /-- An instruction, with the pointer and the base of the machine that is about to execute it. -/
  | trace (machine : String) (pointer : Nat) (base : Cell) (instruction : Fetched)
  /-- A request for a line of input. -/
  | prompt (machine : String)
deriving DecidableEq

namespace Message

/-- The text of a message. Something may be made of the word in front of it. -/
def text (paint : Level → String → String) : Message → String
  | info words => paint .info "info" ++ ": " ++ words ++ "\n"
  | warning words => paint .warning "warning" ++ ": " ++ words ++ "\n"
  | error words => paint .error "error" ++ ": " ++ words ++ "\n"
  | trace machine pointer base instruction =>
      machine ++ ": " ++ Column.right 5 (Decimal.ofNat pointer) ++ " rb=" ++
        Column.left 5 base.text ++ " " ++ instruction.text ++ "\n"
  | prompt machine => machine ++ " input> "

def isInfo : Message → Bool
  | info _ => true
  | _ => false

def isTrace : Message → Bool
  | trace .. => true
  | _ => false

/-- The messages that are heard. -/
def heard (quiet : Bool) (messages : List Message) : List Message :=
  if quiet then messages.filter fun x ↦ !x.isInfo else messages

/-- The texts of messages, one after the other. -/
def written (paint : Level → String → String) (messages : List Message) : String :=
  .join (messages.map (text paint))

/-- The warning that some values have not been read. -/
def leftover (count : Nat) : Message :=
  .warning (Decimal.ofNat count ++ " input value(s) left unconsumed")

/-- The message that tells a notice. -/
def ofNotice (n : Notice) : Message :=
  match n.level with
  | .info => .info n.message
  | .warning => .warning n.message
  | .error => .error n.message

variable {paint : Level → String → String} {quiet : Bool} {messages : List Message}

@[simp] theorem written_nil : written paint [] = "" := String.join_nil

@[simp] theorem written_singleton (x : Message) : written paint [x] = x.text paint := by
  rw [written, List.map_singleton, String.join_cons, String.join_nil, String.append_empty]

@[simp] theorem written_append (more : List Message) :
    written paint (messages ++ more) = written paint messages ++ written paint more := by
  rw [written, List.map_append, String.join_append]
  rfl

@[simp] theorem heard_nil : heard quiet [] = [] := by
  cases quiet <;> rfl

/-- Alone, a message is heard unless it informs and quiet is asked for. -/
theorem heard_singleton (x : Message) :
    heard quiet [x] = if quiet && x.isInfo then [] else [x] := by
  cases quiet <;> cases hinfo : x.isInfo <;> simp [heard, hinfo]

@[simp] theorem heard_append (more : List Message) :
    heard quiet (messages ++ more) = heard quiet messages ++ heard quiet more := by
  cases quiet <;> simp [heard]

/-- A warning that does not begin with a digit is another one. -/
theorem warning_ne_leftover {words : String} {c : Char} {count : Nat}
    (hfirst : words.toList.head? = some c) (hc : c.isDigit = false) :
    Message.warning words ≠ leftover count := by
  intro h
  rw [Message.warning.inj h] at hfirst
  rw [Decimal.isDigit_of_mem_head?_ofNat_append hfirst] at hc
  cases hc

end Message

namespace Event

/-- The message that tells an event, if it is not for standard output. -/
def message? : Event → Option Message
  | entry _ | value _ | cell .. => none
  | trace machine pointer base instruction => some (.trace machine pointer base instruction)
  | prompt machine => some (.prompt machine)
  | notice n => some (.ofNotice n)

variable {events : List Event} {style : Style}

theorem stderr_notice (style : Style) (n : Notice) :
    (notice n).stderr style =
      Message.written style.paint (Message.heard style.quiet [.ofNotice n]) := by
  cases hlevel : n.level <;> cases hquiet : style.quiet <;>
    simp [stderr, Message.ofNotice, Message.heard_singleton, Message.isInfo, Message.text, hlevel,
      hquiet, Level.shown, Level.rank, Level.name, toString]

/-- An event writes its message on standard error, if that is heard. -/
theorem stderr_eq (style : Style) (e : Event) : e.stderr style =
    Message.written style.paint (Message.heard style.quiet e.message?.toList) := by
  cases e with
  | entry | value | cell => simp [stderr, message?]
  | trace machine pointer base instruction =>
      have hbase (rest : String) : " " ++ ("rb=" ++ rest) = " rb=" ++ rest := by
        rw [← String.append_assoc]
        rfl
      simp [stderr, message?, Message.heard_singleton, Message.isInfo, Message.text, toString,
        String.append_assoc, hbase]
  | prompt =>
      simp [stderr, message?, Message.heard_singleton, Message.isInfo, Message.text, toString]
  | notice n => exact stderr_notice style n

/-- The text of events on standard error is that of their messages. -/
theorem gather_stderr (style : Style) (events : List Event) : gather (stderr style) events =
    Message.written style.paint (Message.heard style.quiet (events.filterMap message?)) := by
  induction events with
  | nil => simp
  | cons e events ih =>
      have hmessage : (e :: events).filterMap message? =
          e.message?.toList ++ events.filterMap message? := by
        cases h : e.message? <;> simp [h]
      rw [gather_cons, stderr_eq, ih, hmessage, Message.heard_append, Message.written_append]

/-! ## The warning about input that is left -/

/-- The number of values that are said to be left over. -/
def leftover? : Event → Option Nat
  | notice (.leftover count) => some count
  | _ => none

theorem message?_of_leftover? {e : Event} {count : Nat} (h : e.leftover? = some count) :
    e.message? = some (.leftover count) := by
  cases e with
  | notice n =>
      cases n with
      | leftover count' =>
          obtain rfl : count' = count := Option.some.inj h
          rfl
      | _ => cases h
  | _ => cases h

/-- No other message looks like the warning: it begins with a digit, and they do not. -/
theorem leftover?_of_message? {e : Event} {count : Nat} (h : e.message? = some (.leftover count)) :
    e.leftover? = some count := by
  have hfirst {first rest : String} {c : Char} (hhead : first.toList.head? = some c) :
      (first ++ rest).toList.head? = some c := by
    rw [String.toList_append, List.head?_append, hhead, Option.some_or]
  cases e with
  | notice n =>
      have hnotice : Message.ofNotice n = .leftover count := Option.some.inj h
      cases n with
      | leftover count' =>
          have hwords := Message.warning.inj hnotice
          have hsame : Decimal.ofNat count' = Decimal.ofNat count :=
            (String.append_left_inj _).1 hwords
          rw [leftover?, Decimal.ofNat_injective hsame]
      | badLine error =>
          cases error with
          | malformed =>
              have hhead : "bad input: ".toList.head? = some 'b' := by decide +kernel
              exact absurd hnotice (Message.warning_ne_leftover (hfirst hhead) rfl)
          | notText =>
              have hhead : Line.Error.notText.message.toList.head? = some 'f' := by decide +kernel
              exact absurd hnotice (Message.warning_ne_leftover hhead rfl)
      | dumpClipped =>
          have hhead : "dump range clipped to memory size ".toList.head? = some 'd' := by
            decide +kernel
          exact absurd hnotice (Message.warning_ne_leftover (hfirst hhead) rfl)
      | unreadable | malformed | loaded | unloadable | failed | inputClosed | halted =>
          cases hnotice
  | _ => cases h

/-- Where one warning is to be told at most, it stands alone among the messages. -/
theorem exists_messages_eq {counts : List Nat} (h : events.filterMap leftover? = counts)
    (hle : counts.length ≤ 1) :
    ∃ before after, events.filterMap message? = before ++ counts.map .leftover ++ after ∧
      ∀ count, .leftover count ∉ before ++ after := by
  have hnone {events : List Event} (hevents : ∀ e ∈ events, e.leftover? = none) (count : Nat) :
      .leftover count ∉ events.filterMap message? := by
    intro hmem
    obtain ⟨e, he, hmessage⟩ := List.mem_filterMap.1 hmem
    cases (hevents e he).symm.trans (leftover?_of_message? hmessage)
  cases counts with
  | nil =>
      refine ⟨events.filterMap message?, [], by simp, ?_⟩
      simpa using hnone (List.filterMap_eq_nil_iff.1 h)
  | cons count counts =>
      obtain rfl : counts = [] := List.eq_nil_of_length_eq_zero (by simpa using hle)
      obtain ⟨before, e, after, rfl, hbefore, he, hafter⟩ := List.filterMap_eq_cons_iff.1 h
      have hmessage : e.message? = some (.leftover count) := message?_of_leftover? he
      refine ⟨before.filterMap message?, after.filterMap message?, by simp [hmessage],
        fun count hmem ↦ ?_⟩
      obtain hmem | hmem := List.mem_append.1 hmem
      · exact hnone hbefore count hmem
      · exact hnone (List.filterMap_eq_nil_iff.1 hafter) count hmem

end Event

end Intcode
