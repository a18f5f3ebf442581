import PhpNsq.Command
import PhpNsq.Foundations.PrefixCodes
import PhpNsq.Identify
import PhpNsq.Publisher.Commands

/-!
# What nsqd makes of the commands

`Command` are the commands the extension can build, and `Command.encode` is the encoder
of the source for each. nsqd reads a line, splits it at single spaces, and looks at the
first word; behind the line of `PUB`, `DPUB` and `IDENTIFY` come a length and that many
bytes (`decodeCommand`).

Every command is a line of words and a tail (`Command.words`, `Command.tail`), and names without
blanks and line breaks make the words recoverable. So a stream of commands is decoded
to these commands, whatever bytes the messages contain (`decodeStream_commands`).
-/

set_option autoImplicit false

namespace PhpNsq

open Foundations

/-- The commands, named after the functions that build them. -/
inductive Command where
  | publish (topic msg : Bytes)
  | deferredPublish (topic msg : Bytes) (deferTime : Int32)
  | sendIdentify (json : Bytes)
  | nsqSubscribe (topic channel : Bytes)
  | nsqReady (count : Int32)
  | nsqFinish (id : Bytes)
  | nsqTouch (id : Bytes)
  | nsqRequeue (id : Bytes) (timeoutMs : Int32)
  | nsqNop

/-- The bytes of a command, if it fits the buffer it is built in. -/
def Command.encode : Command → Option Bytes
  | .publish topic msg => publishCommand topic msg
  | .deferredPublish topic msg deferTime => deferredPublishCommand topic msg deferTime
  | .sendIdentify json => identifyCommand json
  | .nsqSubscribe topic channel => PhpNsq.nsqSubscribe topic channel
  | .nsqReady count => PhpNsq.nsqReady count
  | .nsqFinish id => PhpNsq.nsqFinish id
  | .nsqTouch id => PhpNsq.nsqTouch id
  | .nsqRequeue id timeoutMs => PhpNsq.nsqRequeue id timeoutMs
  | .nsqNop => PhpNsq.nsqNop

/-! ## The decoder -/

/-- A decimal text in the range of `int`. -/
def readInt32 (text : Bytes) : Option Int32 :=
  match readDecimal text with
  | none => none
  | some n => if -2 ^ 31 ≤ n ∧ n < 2 ^ 31 then some (Int32.ofInt n) else none

/-- The command of a line with these words, and what its body leaves of the stream. -/
def decodeWords (words : List Bytes) (rest : Bytes) : Option (Command × Bytes) :=
  match words with
  | [word] =>
      if word = ascii "NOP" then some (.nsqNop, rest)
      else if word = ascii "IDENTIFY" then
        (cutBody rest).map fun (json, rest) => (.sendIdentify json, rest)
      else none
  | [word, first] =>
      if word = ascii "PUB" then (cutBody rest).map fun (msg, rest) => (.publish first msg, rest)
      else if word = ascii "RDY" then (readInt32 first).map fun count => (.nsqReady count, rest)
      else if word = ascii "FIN" then some (.nsqFinish first, rest)
      else if word = ascii "TOUCH" then some (.nsqTouch first, rest)
      else none
  | [word, first, second] =>
      if word = ascii "DPUB" then
        match readInt32 second with
        | none => none
        | some deferTime =>
            (cutBody rest).map fun (msg, rest) => (.deferredPublish first msg deferTime, rest)
      else if word = ascii "SUB" then some (.nsqSubscribe first second, rest)
      else if word = ascii "REQ" then
        (readInt32 second).map fun timeoutMs => (.nsqRequeue first timeoutMs, rest)
      else none
  | _ => none

/-- One command from the front of a stream: bytes 10 and 32 are the line break and the blank. -/
def decodeCommand (stream : Bytes) : Option (Command × Bytes) :=
  match cutLine 10 stream with
  | none => none
  | some (line, rest) => decodeWords (line.splitOn 32) rest

theorem readInt32_decimal (n : Int32) : readInt32 (decimal n.toInt) = some n := by
  have low := n.le_toInt
  have high := n.toInt_lt
  simp only [readInt32, readDecimal_decimal]
  rw [if_pos ⟨low, high⟩, Int32.ofInt_toInt]

/-! ## Words and tails -/

/-- A topic, channel or id: not empty, and without NUL, blank and line break. -/
structure IsName (bytes : Bytes) : Prop where
  nonempty : bytes ≠ []
  nul : 0 ∉ bytes
  blank : 32 ∉ bytes
  newline : 10 ∉ bytes

theorem isName_iff {bytes : Bytes} :
    IsName bytes ↔ bytes ≠ [] ∧ 0 ∉ bytes ∧ 32 ∉ bytes ∧ 10 ∉ bytes :=
  ⟨fun isName => ⟨isName.nonempty, isName.nul, isName.blank, isName.newline⟩,
    fun ⟨nonempty, nul, blank, newline⟩ => ⟨nonempty, nul, blank, newline⟩⟩

instance : DecidablePred IsName := fun _ => decidable_of_iff' _ isName_iff

namespace Command

/-- The arguments that a command may have. -/
def WellFormed : Command → Prop
  | .publish topic _ => IsName topic
  | .deferredPublish topic _ deferTime => IsName topic ∧ 0 ≤ deferTime.toInt
  | .sendIdentify json => 0 ∉ json
  | .nsqSubscribe topic channel => IsName topic ∧ IsName channel
  | .nsqReady _ => True
  | .nsqFinish id => IsName id
  | .nsqTouch id => IsName id
  | .nsqRequeue id _ => IsName id
  | .nsqNop => True

instance : DecidablePred WellFormed
  | .publish topic _ => inferInstanceAs (Decidable (IsName topic))
  | .deferredPublish topic _ deferTime =>
      inferInstanceAs (Decidable (IsName topic ∧ 0 ≤ deferTime.toInt))
  | .sendIdentify json => inferInstanceAs (Decidable (0 ∉ json))
  | .nsqSubscribe topic channel => inferInstanceAs (Decidable (IsName topic ∧ IsName channel))
  | .nsqReady _ => isTrue trivial
  | .nsqFinish id => inferInstanceAs (Decidable (IsName id))
  | .nsqTouch id => inferInstanceAs (Decidable (IsName id))
  | .nsqRequeue id _ => inferInstanceAs (Decidable (IsName id))
  | .nsqNop => isTrue trivial

/-- The words of the line of a command. -/
def words : Command → List Bytes
  | .publish topic _ => [ascii "PUB", topic]
  | .deferredPublish topic _ deferTime => [ascii "DPUB", topic, decimal deferTime.toInt]
  | .sendIdentify _ => [ascii "IDENTIFY"]
  | .nsqSubscribe topic channel => [ascii "SUB", topic, channel]
  | .nsqReady count => [ascii "RDY", decimal count.toInt]
  | .nsqFinish id => [ascii "FIN", id]
  | .nsqTouch id => [ascii "TOUCH", id]
  | .nsqRequeue id timeoutMs => [ascii "REQ", id, decimal timeoutMs.toInt]
  | .nsqNop => [ascii "NOP"]

/-- The counted bytes behind the line. -/
def body : Command → Option Bytes
  | .publish _ msg => some msg
  | .deferredPublish _ msg _ => some msg
  | .sendIdentify json => some json
  | _ => none

/-- What follows the line. -/
def tail (command : Command) : Bytes :=
  match command.body with
  | none => []
  | some body => bigEndian 4 body.length ++ body

variable {command : Command} {bytes : Bytes}

/-- **A command is its words, a line break, and its tail.** -/
theorem encode_eq (wellFormed : command.WellFormed) (encoded : command.encode = some bytes) :
    bytes = [32].intercalate command.words ++ 10 :: command.tail := by
  cases command with
  | publish topic msg =>
      rw [encode, publishCommand, cString_of_notMem wellFormed.nul] at encoded
      split at encoded
      · obtain rfl := Option.some.inj encoded
        simp [words, tail, body, ascii, List.intercalate_cons_cons]
      · cases encoded
  | deferredPublish topic msg deferTime =>
      obtain ⟨name, nonneg⟩ := wellFormed
      rw [encode, deferredPublishCommand, cString_of_notMem name.nul, longLong_of_nonneg nonneg]
        at encoded
      split at encoded
      · obtain rfl := Option.some.inj encoded
        simp [words, tail, body, ascii, List.intercalate_cons_cons]
      · cases encoded
  | sendIdentify json =>
      have free : (0 : UInt8) ∉ json := wellFormed
      by_cases fits : json.length + 14 ≤ 256
      · rw [encode, identifyCommand_eq free fits] at encoded
        obtain rfl := Option.some.inj encoded
        simp [words, tail, body, ascii]
      · have line : (ascii "IDENTIFY\n").length = 9 := rfl
        simp only [encode, identifyCommand, cString_of_notMem free] at encoded
        rw [if_neg] at encoded
        · cases encoded
        · simp only [List.length_append, line, length_bigEndian]
          omega
  | nsqSubscribe topic channel =>
      obtain ⟨-, rfl⟩ := sprintf_eq_some.mp encoded
      rw [cString_of_notMem wellFormed.1.nul, cString_of_notMem wellFormed.2.nul]
      simp [words, tail, body, ascii, newLine, List.intercalate_cons_cons]
  | nsqReady count =>
      obtain ⟨-, rfl⟩ := sprintf_eq_some.mp encoded
      simp [words, tail, body, ascii, newLine, List.intercalate_cons_cons]
  | nsqFinish id =>
      obtain ⟨-, rfl⟩ := sprintf_eq_some.mp encoded
      rw [cString_of_notMem wellFormed.nul]
      simp [words, tail, body, ascii, newLine, List.intercalate_cons_cons]
  | nsqTouch id =>
      obtain ⟨-, rfl⟩ := sprintf_eq_some.mp encoded
      rw [cString_of_notMem wellFormed.nul]
      simp [words, tail, body, ascii, newLine, List.intercalate_cons_cons]
  | nsqRequeue id timeoutMs =>
      obtain ⟨-, rfl⟩ := sprintf_eq_some.mp encoded
      rw [cString_of_notMem wellFormed.nul]
      simp [words, tail, body, ascii, newLine, List.intercalate_cons_cons]
  | nsqNop =>
      obtain rfl := Option.some.inj (nsqNop_eq.symm.trans encoded)
      simp [words, tail, body, ascii, newLine]

/-- The decimal text of an integer is a word. -/
theorem word_decimal (n : ℤ) : (32 : UInt8) ∉ decimal n ∧ (10 : UInt8) ∉ decimal n :=
  ⟨not_mem_decimal (by decide) (by decide), not_mem_decimal (by decide) (by decide)⟩

/-- No word contains a blank or a line break. -/
theorem mem_words (wellFormed : command.WellFormed) :
    ∀ word ∈ command.words, (32 : UInt8) ∉ word ∧ (10 : UInt8) ∉ word := by
  have name : ∀ {id : Bytes}, IsName id → (32 : UInt8) ∉ id ∧ (10 : UInt8) ∉ id :=
    fun isName => ⟨isName.blank, isName.newline⟩
  cases command with
  | publish topic msg => simpa [words, name wellFormed] using by decide
  | deferredPublish topic msg deferTime =>
      simpa [words, name wellFormed.1, word_decimal] using by decide
  | sendIdentify json => simpa [words] using by decide
  | nsqSubscribe topic channel =>
      simpa [words, name wellFormed.1, name wellFormed.2] using by decide
  | nsqReady count => simpa [words, word_decimal] using by decide
  | nsqFinish id => simpa [words, name wellFormed] using by decide
  | nsqTouch id => simpa [words, name wellFormed] using by decide
  | nsqRequeue id timeoutMs => simpa [words, name wellFormed, word_decimal] using by decide
  | nsqNop => simpa [words] using by decide

/-- A body is shorter than its four-byte length can tell. -/
theorem length_body_lt {body : Bytes} (encoded : command.encode = some bytes)
    (has_body : command.body = some body) : body.length < 256 ^ 4 := by
  cases command with
  | publish topic msg =>
      obtain rfl := Option.some.inj has_body
      rw [encode, publishCommand] at encoded
      split at encoded
      · next fits =>
          simp only [List.length_append, publishBuffer] at fits
          omega
      · cases encoded
  | deferredPublish topic msg deferTime =>
      obtain rfl := Option.some.inj has_body
      rw [encode, deferredPublishCommand] at encoded
      split at encoded
      · next fits =>
          simp only [List.length_append, publishBuffer] at fits
          omega
      · cases encoded
  | sendIdentify json =>
      obtain rfl := Option.some.inj has_body
      simp only [encode, identifyCommand] at encoded
      split at encoded
      · next fits =>
          have short := fits.2
          omega
      · cases encoded
  | nsqSubscribe topic channel => cases has_body
  | nsqReady count => cases has_body
  | nsqFinish id => cases has_body
  | nsqTouch id => cases has_body
  | nsqRequeue id timeoutMs => cases has_body
  | nsqNop => cases has_body

/-- The words and the tail give the command back. -/
theorem decodeWords_words (encoded : command.encode = some bytes) (rest : Bytes) :
    decodeWords command.words (command.tail ++ rest) = some (command, rest) := by
  have reads : ∀ {body : Bytes}, command.body = some body →
      cutBody (command.tail ++ rest) = some (body, rest) := by
    intro body has_body
    rw [tail, has_body, List.append_assoc]
    exact cutBody_append (length_body_lt encoded has_body) rest
  cases command with
  | publish topic msg =>
      have dispatched : decodeWords (publish topic msg).words ((publish topic msg).tail ++ rest) =
          (cutBody ((publish topic msg).tail ++ rest)).map
            fun (msg, rest) => (.publish topic msg, rest) := rfl
      rw [dispatched, reads rfl]
      rfl
  | deferredPublish topic msg deferTime =>
      have dispatched : decodeWords (deferredPublish topic msg deferTime).words
          ((deferredPublish topic msg deferTime).tail ++ rest) =
            match readInt32 (decimal deferTime.toInt) with
            | none => none
            | some deferTime => (cutBody ((deferredPublish topic msg deferTime).tail ++ rest)).map
                fun (msg, rest) => (.deferredPublish topic msg deferTime, rest) := rfl
      simp only [dispatched, readInt32_decimal, reads rfl, Option.map_some]
  | sendIdentify json =>
      have dispatched : decodeWords (sendIdentify json).words ((sendIdentify json).tail ++ rest) =
          (cutBody ((sendIdentify json).tail ++ rest)).map
            fun (json, rest) => (.sendIdentify json, rest) := rfl
      rw [dispatched, reads rfl]
      rfl
  | nsqSubscribe topic channel => rfl
  | nsqReady count =>
      have dispatched : decodeWords (nsqReady count).words ((nsqReady count).tail ++ rest) =
          (readInt32 (decimal count.toInt)).map fun count => (.nsqReady count, rest) := rfl
      rw [dispatched, readInt32_decimal]
      rfl
  | nsqFinish id => rfl
  | nsqTouch id => rfl
  | nsqRequeue id timeoutMs =>
      have dispatched : decodeWords (nsqRequeue id timeoutMs).words
          ((nsqRequeue id timeoutMs).tail ++ rest) =
            (readInt32 (decimal timeoutMs.toInt)).map
              fun timeoutMs => (.nsqRequeue id timeoutMs, rest) := rfl
      rw [dispatched, readInt32_decimal]
      rfl
  | nsqNop => rfl

/-- A line of the words of a command is split into these. -/
theorem splitOn_words (wellFormed : command.WellFormed) :
    ([32].intercalate command.words).splitOn 32 = command.words := by
  have some_words : command.words ≠ [] := by
    cases command <;> exact List.cons_ne_nil _ _
  exact List.splitOn_intercalate 32 (fun word member => (mem_words wellFormed word member).1)
    some_words

/-- **A command is read back, whatever follows it.** -/
theorem decodeCommand_append (wellFormed : command.WellFormed)
    (encoded : command.encode = some bytes) (rest : Bytes) :
    decodeCommand (bytes ++ rest) = some (command, rest) := by
  have words := mem_words wellFormed
  have line : (10 : UInt8) ∉ [32].intercalate command.words :=
    not_mem_intercalate (by decide) fun word member => (words word member).2
  rw [encode_eq wellFormed encoded, List.append_assoc, List.cons_append, decodeCommand,
    cutLine_append line]
  simp only [splitOn_words wellFormed]
  exact decodeWords_words encoded rest

/-- Without its body a command is not read. -/
theorem decodeWords_none {body rest : Bytes} (has_body : command.body = some body)
    (cut : cutBody rest = none) : decodeWords command.words rest = none := by
  cases command with
  | publish topic msg =>
      have dispatched : decodeWords (publish topic msg).words rest =
          (cutBody rest).map fun (msg, rest) => (.publish topic msg, rest) := rfl
      rw [dispatched, cut]
      rfl
  | deferredPublish topic msg deferTime =>
      have dispatched : decodeWords (deferredPublish topic msg deferTime).words rest =
          match readInt32 (decimal deferTime.toInt) with
          | none => none
          | some deferTime => (cutBody rest).map
              fun (msg, rest) => (.deferredPublish topic msg deferTime, rest) := rfl
      simp only [dispatched, readInt32_decimal, cut, Option.map_none]
  | sendIdentify json =>
      have dispatched : decodeWords (sendIdentify json).words rest =
          (cutBody rest).map fun (json, rest) => (.sendIdentify json, rest) := rfl
      rw [dispatched, cut]
      rfl
  | nsqSubscribe topic channel => cases has_body
  | nsqReady count => cases has_body
  | nsqFinish id => cases has_body
  | nsqTouch id => cases has_body
  | nsqRequeue id timeoutMs => cases has_body
  | nsqNop => cases has_body

/-- A part of a command is not read. -/
theorem decodeCommand_part (wellFormed : command.WellFormed)
    (encoded : command.encode = some bytes) {part : Bytes} (begins : part <+: bytes)
    (short : part.length < bytes.length) : decodeCommand part = none := by
  have words := mem_words wellFormed
  have line : (10 : UInt8) ∉ [32].intercalate command.words :=
    not_mem_intercalate (by decide) fun word member => (words word member).2
  rw [encode_eq wellFormed encoded, List.append_cons] at begins short
  by_cases whole : ([32].intercalate command.words ++ [10]).length ≤ part.length
  · obtain ⟨tail, rfl⟩ := List.prefix_of_prefix_length_le (List.prefix_append _ _) begins whole
    have inside : tail <+: command.tail := (List.prefix_append_right_inj _).mp begins
    simp only [List.length_append] at short
    -- only the body can be cut behind the line
    cases has_body : command.body with
    | none =>
        rw [Command.tail, has_body, List.length_nil] at short
        omega
    | some body =>
        rw [Command.tail, has_body] at inside short
        rw [List.length_append, length_bigEndian] at short
        have cut := cutBody_part (length_body_lt encoded has_body) inside (by omega)
        rw [← List.append_cons, decodeCommand, cutLine_append line]
        simp only [splitOn_words wellFormed]
        exact decodeWords_none has_body cut
  · have front := List.prefix_of_prefix_length_le begins (List.prefix_append _ _)
      (not_le.mp whole).le
    have inside : part <+: [32].intercalate command.words := by
      refine List.prefix_of_prefix_length_le front (List.prefix_append _ _) ?_
      rw [List.length_append, List.length_singleton] at whole
      omega
    rw [decodeCommand, cutLine_of_notMem fun member => line (inside.subset member)]

end Command

/-! ## Streams of commands -/

/-- What nsqd makes of the bytes that have come in on a connection: the commands behind the magic
that are whole, and what is left. -/
def nsqdReads (received : Bytes) : Option (List Command × Bytes) :=
  if received.take 4 = ascii "  V2" then some (decodeReceived decodeCommand (received.drop 4))
  else none

/-- The command of a configuration, if there is one. -/
theorem exists_identify {nsqConfig : Option Bytes}
    (json : ∀ text, nsqConfig = some text → (0 : UInt8) ∉ text) {identify : Option Bytes}
    (identified : nsqConfig.mapM identifyCommand = some identify) :
    ∃ sent : List (Command × Bytes), sent.map Prod.snd = identify.toList ∧
      sent.map Prod.fst = (nsqConfig.map Command.sendIdentify).toList ∧
      ∀ pair ∈ sent, pair.1.WellFormed ∧ pair.1.encode = some pair.2 := by
  cases nsqConfig with
  | none =>
      obtain rfl := Option.some.inj identified
      exact ⟨[], rfl, rfl, List.forall_mem_nil _⟩
  | some text =>
      obtain ⟨bytes, encoded, rfl⟩ := Option.map_eq_some_iff.mp identified
      exact ⟨[(.sendIdentify text, bytes)], rfl, rfl,
        List.forall_mem_singleton.mpr ⟨json text rfl, encoded⟩⟩

section Received

variable {sent : List (Command × Bytes)} (wellFormed : ∀ pair ∈ sent, pair.1.WellFormed)
  (encoded : ∀ pair ∈ sent, pair.1.encode = some pair.2)

include wellFormed encoded

theorem encoded_ne_nil : ∀ pair ∈ sent, pair.2 ≠ [] := fun pair member => by
  simp [Command.encode_eq (wellFormed pair member) (encoded pair member)]

/-- nsqd reads the commands behind the magic, and leaves a part of a command that is behind them. -/
theorem nsqdReads_append {left : Bytes} (waits : left = [] ∨ decodeCommand left = none) :
    nsqdReads (ascii "  V2" ++ (sent.flatMap Prod.snd ++ left)) =
      some (sent.map Prod.fst, left) := by
  have magic : (ascii "  V2").length = 4 := rfl
  rw [nsqdReads, List.take_left' magic, if_pos rfl, List.drop_left' magic,
    decodeReceived_append (encoded_ne_nil wellFormed encoded)
      (fun pair member => Command.decodeCommand_append (wellFormed pair member) (encoded pair member))
      waits]

/-- **What nsqd makes of a beginning** of the magic and some commands: the commands that are whole in
it, and a part of the next one. -/
theorem nsqdReads_prefix {received : Bytes} (begins : received <+: sent.flatMap Prod.snd) :
    ∃ whole waiting left, sent = whole ++ waiting ∧ received = whole.flatMap Prod.snd ++ left ∧
      (waiting = [] → left = []) ∧
      (∀ pair ∈ waiting.head?, left <+: pair.2 ∧ left.length < pair.2.length) ∧
      nsqdReads (ascii "  V2" ++ received) = some (whole.map Prod.fst, left) := by
  obtain ⟨whole, waiting, left, split, here, nothing, next, decoded⟩ :=
    decodeReceived_prefix (encoded_ne_nil wellFormed encoded)
      (fun pair member => Command.decodeCommand_append (wellFormed pair member) (encoded pair member))
      (fun pair member _ => Command.decodeCommand_part (wellFormed pair member) (encoded pair member))
      begins
  refine ⟨whole, waiting, left, split, here, nothing, next, ?_⟩
  have magic : (ascii "  V2").length = 4 := rfl
  rw [nsqdReads, List.take_left' magic, if_pos rfl, List.drop_left' magic, decoded]

end Received

/-- **The commands are uniquely decodable.** Any sequence of well-formed commands that fit
their buffers is read back from the concatenation of their bytes, with nothing left over. -/
theorem decodeStream_commands {sent : List (Command × Bytes)}
    (wellFormed : ∀ pair ∈ sent, pair.1.WellFormed)
    (encoded : ∀ pair ∈ sent, pair.1.encode = some pair.2) :
    decodeStream decodeCommand (sent.flatMap Prod.snd) = some (sent.map Prod.fst) := by
  refine decodeStream_flatMap ?_ ?_
  · intro pair member
    rw [Command.encode_eq (wellFormed pair member) (encoded pair member)]
    simp
  · intro pair member rest
    exact Command.decodeCommand_append (wellFormed pair member) (encoded pair member) rest

/-- One command of every kind with its bytes, among them a message that looks like commands. -/
def everyCommand : List (Command × Bytes) :=
  [.publish (ascii "t") (ascii "NOP\nPUB t\n" ++ [0, 0]), .deferredPublish (ascii "t") [10] 250,
    .sendIdentify (ascii "{}"), .nsqSubscribe (ascii "t") (ascii "c"), .nsqReady 1,
    .nsqFinish (ascii "0123456789abcdef"), .nsqTouch (ascii "0123456789abcdef"),
    .nsqRequeue (ascii "0123456789abcdef") (-1), .nsqNop].map
      fun (command : Command) => (command, command.encode.getD [])

theorem decodeStream_everyCommand :
    decodeStream decodeCommand (everyCommand.flatMap Prod.snd) =
      some (everyCommand.map Prod.fst) :=
  decodeStream_commands (by decide) (by decide)

end PhpNsq
