import TokenRing.TokenWire

/-!
`writer.c` and `cli.c`: what a user gives to the writer, the record that the
writer puts into the FIFO, and the record that the node takes out of it.
-/

namespace TokenRing

/-- The characters of a C string. -/
def cString (text : Bytes) : Bytes := text.takeWhile (· != 0)

def strlen (text : Bytes) : Nat := (cString text).length

/-- The C string that `strncpy` leaves in a zeroed buffer of more than `size`
bytes. -/
def strncpy (src : Bytes) (size : Nat) : Bytes := (cString src).take size

/-- `main` of the writer: the token that it writes, and `none` when it exits
with a failure. `fifoWritable` says whether the FIFO opens and takes the
record. -/
def writerMain (argv : List Bytes) (nodeName : Option Bytes) (fifoWritable : Bool) :
    Option Token :=
  match argv with
  | [_, data, receiver] =>
      if strlen data > maxDataSize - 1 then
        none
      else if strlen receiver > maxNodeNameSize - 1 then
        none
      else
        match nodeName with
        | none => none
        | some sender =>
            if !fifoWritable then
              none
            else
              some {
                data := strncpy data (maxDataSize - 1)
                sender := .ofBytes sender
                receiver := .ofBytes receiver
                topoVersion := 0
                isEmpty := false }
  | _ => none

/-- `cli_handle_read` on the bytes in the FIFO and those in its token: the token
after the `read`, and what stays in the FIFO. -/
def cliHandleRead (fifo token : Bytes) : Bytes × Bytes :=
  let got := fifo.take sizeofToken
  (got ++ token.drop got.length, fifo.drop sizeofToken)

/-- The text of the token is a C string in its buffer. -/
structure Token.IsText (token : Token) : Prop where
  short : token.data.length < maxDataSize
  noNul : ∀ c ∈ token.data, c ≠ 0

section Writer

theorem cString_noNul (text : Bytes) : ∀ c ∈ cString text, c ≠ 0 := by
  intro c hc
  simpa using List.mem_takeWhile_imp hc

/-- What the writer accepts goes into the record as it was given. -/
structure WritesAll (data receiver : Bytes) (token : Token) : Prop where
  data : token.data = cString data
  receiver : token.receiver.chars = cString receiver
  full : token.isEmpty = false
  text : token.IsText

theorem NodeName.ofBytes_chars {src : Bytes} (hshort : strlen src ≤ maxNodeNameSize - 1) :
    (NodeName.ofBytes src).chars = cString src := by
  calc (NodeName.ofBytes src).chars
      = (cString src).take (maxNodeNameSize - 1) := List.take_takeWhile.symm
    _ = cString src := List.take_of_length_le hshort

theorem writerMain_writesAll {argv : List Bytes} {nodeName : Option Bytes}
    {fifoWritable : Bool} {token : Token}
    (h : writerMain argv nodeName fifoWritable = some token) :
    ∃ program data receiver, argv = [program, data, receiver] ∧
      WritesAll data receiver token := by
  unfold writerMain at h
  split at h
  · rename_i program data receiver
    refine ⟨program, data, receiver, rfl, ?_⟩
    by_cases hdata : strlen data ≤ maxDataSize - 1
    · by_cases hreceiver : strlen receiver ≤ maxNodeNameSize - 1
      · rw [if_neg (by omega), if_neg (by omega)] at h
        have hwhole : strncpy data (maxDataSize - 1) = cString data :=
          List.take_of_length_le hdata
        cases nodeName with
        | none => cases h
        | some sender =>
            cases fifoWritable with
            | false => cases h
            | true =>
                cases h
                refine ⟨hwhole, NodeName.ofBytes_chars hreceiver, rfl, ?_, ?_⟩
                · have hlength : strlen data < maxDataSize := by
                    simp only [maxDataSize] at hdata ⊢
                    omega
                  exact hwhole ▸ hlength
                · exact hwhole ▸ cString_noNul data
      · rw [if_neg (by omega), if_pos (by omega)] at h
        cases h
    · rw [if_pos (by omega)] at h
      cases h
  · cases h

/-- A text token survives its way into a buffer and back. -/
theorem Token.IsText.round_trip {token : Token} (h : token.IsText) (order : ByteOrder)
    (slack : Slack) : Token.ofPayload order (token.payload order slack) = token := by
  rw [Token.ofPayload_payload order order slack h.short.le h.noNul, crossed_same]

/-- A record at the front of the FIFO is read whole, whatever was in the
buffer. -/
theorem cliHandleRead_record {token : Token} (h : token.IsText) (order : ByteOrder)
    (slack : Slack) (rest : Bytes) {buffer : Bytes} (hbuffer : buffer.length = sizeofToken) :
    cliHandleRead (token.payload order slack ++ rest) buffer =
      (token.payload order slack, rest) := by
  have hlength := Token.length_payload order slack h.short.le
  unfold cliHandleRead
  simp only
  rw [List.take_left' hlength, List.drop_left' hlength, hlength,
    List.drop_of_length_le hbuffer.le, List.append_nil]

end Writer

end TokenRing
