/-
# Lines of a chunked byte stream

A reader takes the bytes of a text in chunks of any size, decodes them as they come and hands out
the text line by line. The decoder is the streaming one of the web platform: it replaces what is
not UTF-8, drops one leading byte order mark, and keeps what it has seen of a character from one
chunk to the next. Which lines are handed out does not depend on where the chunks end.
-/

import Mathlib.Data.List.Basic

/-! ## Decoding -/

/-- The state of a UTF-8 decoder between bytes: the character that is under way, how many of its
bytes are still owed, and the bounds of the next one. -/
structure Utf8Decoder where
  codePoint : ℕ
  needed : ℕ
  lower : ℕ
  upper : ℕ
  bomSeen : Bool
  deriving DecidableEq

namespace Utf8Decoder

def start : Utf8Decoder := ⟨0, 0, 0x80, 0xBF, false⟩

/-- The character that stands for bytes that are none. -/
def replacement : Char := Char.ofNat 0xFFFD

/-- A character is complete. The first one is dropped if it is a byte order mark. -/
def emit (d : Utf8Decoder) (c : Char) : Utf8Decoder × List Char :=
  ({ start with bomSeen := true },
    if !d.bomSeen && c.toNat = 0xFEFF then [] else [c])

/-- A byte between characters. -/
def lead (d : Utf8Decoder) (byte : ℕ) : Utf8Decoder × List Char :=
  if byte ≤ 0x7F then d.emit (Char.ofNat byte)
  else if 0xC2 ≤ byte ∧ byte ≤ 0xDF then
    ({ d with codePoint := byte - 0xC0, needed := 1 }, [])
  else if 0xE0 ≤ byte ∧ byte ≤ 0xEF then
    ({ d with
      codePoint := byte - 0xE0
      needed := 2
      lower := if byte = 0xE0 then 0xA0 else 0x80
      upper := if byte = 0xED then 0x9F else 0xBF }, [])
  else if 0xF0 ≤ byte ∧ byte ≤ 0xF4 then
    ({ d with
      codePoint := byte - 0xF0
      needed := 3
      lower := if byte = 0xF0 then 0x90 else 0x80
      upper := if byte = 0xF4 then 0x8F else 0xBF }, [])
  else d.emit replacement

/-- One byte. One that does not continue the character under way ends it, and is read again. -/
def read (d : Utf8Decoder) (byte : ℕ) : Utf8Decoder × List Char :=
  if d.needed = 0 then d.lead byte
  else if d.lower ≤ byte ∧ byte ≤ d.upper then
    let codePoint := d.codePoint * 64 + (byte - 0x80)
    if d.needed = 1 then d.emit (Char.ofNat codePoint)
    else ({ start with codePoint, needed := d.needed - 1, bomSeen := d.bomSeen }, [])
  else
    let ended := d.emit replacement
    let again := ended.1.lead byte
    (again.1, ended.2 ++ again.2)

/-- The text of some bytes, and where they leave the decoder. -/
def decode (d : Utf8Decoder) : List UInt8 → Utf8Decoder × List Char
  | [] => (d, [])
  | byte :: bytes =>
      let first := d.read byte.toNat
      let rest := decode first.1 bytes
      (rest.1, first.2 ++ rest.2)

/-- **Streaming.** Bytes that come in two parts decode to the text of the whole. -/
theorem decode_append (d : Utf8Decoder) (first second : List UInt8) :
    (d.decode (first ++ second)).2 =
      (d.decode first).2 ++ ((d.decode first).1.decode second).2 := by
  induction first generalizing d with
  | nil => rfl
  | cons byte bytes ih =>
      simp only [List.cons_append, decode]
      rw [ih, List.append_assoc]

end Utf8Decoder

/-! ## Lines -/

/-- The text up to the first line feed, and the text after it. -/
def cutLine : List Char → Option (List Char × List Char)
  | [] => none
  | c :: cs =>
      if c = '\n' then some ([], cs)
      else (cutLine cs).map fun cut => (c :: cut.1, cut.2)

/-- The lines of a text. The last one is what follows the last line feed. -/
def textLines : List Char → List (List Char)
  | [] => [[]]
  | c :: cs =>
      if c = '\n' then [] :: textLines cs
      else
        match textLines cs with
        | [] => [[c]]
        | line :: lines => (c :: line) :: lines

theorem textLines_of_cutLine {text line rest : List Char} (hcut : cutLine text = some (line, rest)) :
    textLines text = line :: textLines rest := by
  induction text generalizing line with
  | nil => cases hcut
  | cons c cs ih =>
      rw [cutLine] at hcut
      rw [textLines]
      by_cases hfeed : c = '\n'
      · rw [if_pos hfeed] at hcut
        rw [if_pos hfeed]
        cases hcut
        rfl
      · rw [if_neg hfeed] at hcut
        rw [if_neg hfeed]
        obtain ⟨⟨line', rest'⟩, hcut', heq⟩ := Option.map_eq_some_iff.mp hcut
        cases heq
        rw [ih hcut']

theorem textLines_of_uncut {text : List Char} (hcut : cutLine text = none) :
    textLines text = [text] := by
  induction text with
  | nil => rfl
  | cons c cs ih =>
      rw [cutLine] at hcut
      by_cases hfeed : c = '\n'
      · rw [if_pos hfeed] at hcut
        cases hcut
      · rw [if_neg hfeed] at hcut
        rw [textLines, if_neg hfeed, ih (Option.map_eq_none_iff.mp hcut)]

/-- What is appended to a text comes after its first line. -/
theorem cutLine_append {text line rest : List Char} (more : List Char)
    (hcut : cutLine text = some (line, rest)) :
    cutLine (text ++ more) = some (line, rest ++ more) := by
  induction text generalizing line with
  | nil => cases hcut
  | cons c cs ih =>
      rw [cutLine] at hcut
      rw [List.cons_append, cutLine]
      by_cases hfeed : c = '\n'
      · rw [if_pos hfeed] at hcut
        cases hcut
        rw [if_pos hfeed]
      · rw [if_neg hfeed] at hcut
        obtain ⟨⟨line', rest'⟩, hcut', heq⟩ := Option.map_eq_some_iff.mp hcut
        cases heq
        rw [if_neg hfeed, ih hcut']
        rfl

/-! ## Reading -/

/-- A reader: the chunks that are still to come, the decoder, the text that is decoded and not
handed out, and whether everything has been. -/
structure LineReader where
  chunks : List (List UInt8)
  decoder : Utf8Decoder
  buffer : List Char
  closed : Bool

namespace LineReader

/-- A reader at the start of a stream. -/
def start (chunks : List (List UInt8)) : LineReader := ⟨chunks, .start, [], false⟩

variable {r r' : LineReader} {line : List Char}

/-- The next chunk is read, once no line is left in the buffer. -/
def pull (r : LineReader) : Option LineReader :=
  if r.closed || (cutLine r.buffer).isSome then none
  else
    match r.chunks with
    | [] => none
    | chunk :: chunks =>
        let decoded := r.decoder.decode chunk
        some { r with chunks, decoder := decoded.1, buffer := r.buffer ++ decoded.2 }

/-- The next line is handed out. At the end of the stream, what is left is the last one. -/
def next (r : LineReader) : Option (List Char × LineReader) :=
  if r.closed then none
  else
    match cutLine r.buffer with
    | some (line, rest) => some (line, { r with buffer := rest })
    | none => if r.chunks = [] then some (r.buffer, { r with closed := true }) else none

/-- The lines that are still to be handed out. -/
def unread (r : LineReader) : List (List Char) :=
  if r.closed then [] else textLines (r.buffer ++ (r.decoder.decode r.chunks.flatten).2)

theorem unread_of_closed (hclosed : r.closed = true) : r.unread = [] := by
  rw [unread, if_pos hclosed]

/-- **Chunks.** The lines of a stream are those of its bytes, however they are chunked. -/
theorem unread_start (chunks : List (List UInt8)) :
    (start chunks).unread = textLines (Utf8Decoder.start.decode chunks.flatten).2 := rfl

/-- Reading a chunk leaves the lines to come as they are. -/
theorem unread_pull (hpull : r.pull = some r') : r'.unread = r.unread := by
  rw [pull] at hpull
  split at hpull
  · cases hpull
  · next hopen =>
      rw [Bool.or_eq_true, not_or, Bool.not_eq_true] at hopen
      split at hpull
      · cases hpull
      · next chunk chunks hchunks =>
          cases hpull
          rw [unread, unread, hopen.1, hchunks, List.flatten_cons, Utf8Decoder.decode_append,
            List.append_assoc]

/-- The line that is handed out is the first of those to come. -/
theorem unread_next (hnext : r.next = some (line, r')) : r.unread = line :: r'.unread := by
  rw [next] at hnext
  split at hnext
  · cases hnext
  · next hopen =>
      split at hnext
      · next line' rest hcut =>
          cases hnext
          rw [unread, unread, if_neg hopen, if_neg hopen]
          exact textLines_of_cutLine (cutLine_append _ hcut)
      · next huncut =>
          split at hnext
          · next hchunks =>
              cases hnext
              rw [unread, if_neg hopen, unread_of_closed rfl, hchunks]
              show textLines (r.buffer ++ []) = _
              rw [List.append_nil, textLines_of_uncut huncut]
          · cases hnext

/-- A reader that is neither closed nor at a line has a chunk to read. -/
theorem pull_or_next (hopen : r.closed = false) : r.pull.isSome ∨ r.next.isSome := by
  rw [pull, next, hopen]
  cases hcut : cutLine r.buffer with
  | some cut => exact Or.inr rfl
  | none =>
      cases hchunks : r.chunks with
      | nil => exact Or.inr rfl
      | cons chunk chunks => exact Or.inl rfl

end LineReader
