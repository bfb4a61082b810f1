/-!
# Decoding UTF-8

Strict decoding of bytes: overlong forms, surrogates and code points past the last are faults. A fault names the bytes at
fault by position: the whole truncated tail, or a lead byte together with the continuation bytes that were still good.
-/

namespace FormatAudit.Text

/-- Why bytes are not UTF-8. -/
inductive Utf8Reason where
  | startByte | continuationByte | truncated
  deriving DecidableEq, Repr

/-- The words for a reason. -/
def Utf8Reason.message : Utf8Reason → String
  | .startByte => "invalid start byte"
  | .continuationByte => "invalid continuation byte"
  | .truncated => "unexpected end of data"

/-- A place where bytes are not UTF-8: position and value of the first byte at fault, how many bytes are at fault, and why. -/
structure Utf8Fault where
  position : Nat
  byte : UInt8
  count : Nat
  reason : Utf8Reason
  deriving DecidableEq, Repr

/-- How many bytes a lead byte announces, and the least and greatest value its second byte may have; `none` for a byte that
cannot lead. -/
def leadByte? (b : Nat) : Option (Nat × Nat × Nat) :=
  if b < 0x80 then some (1, 0, 0)
  else if b < 0xC2 then none
  else if b < 0xE0 then some (2, 0x80, 0xBF)
  else if b < 0xF0 then
    some (3, if b = 0xE0 then 0xA0 else 0x80, if b = 0xED then 0x9F else 0xBF)
  else if b < 0xF5 then
    some (4, if b = 0xF0 then 0x90 else 0x80, if b = 0xF4 then 0x8F else 0xBF)
  else none

/-- How many of the announced continuation bytes are good, counted from the first. The bounds hold for the next byte; later ones
may be any continuation byte. -/
def goodContinuations : Nat → Nat → Nat → List UInt8 → Nat
  | 0, _, _, _ => 0
  | _, _, _, [] => 0
  | n + 1, lo, hi, b :: bs =>
    if lo ≤ b.toNat && b.toNat ≤ hi then goodContinuations n 0x80 0xBF bs + 1 else 0

/-- The code point of a lead byte and its continuation bytes. -/
def codePoint (lead : Nat) (rest : List UInt8) : Nat :=
  let top := match rest.length with
    | 0 => lead
    | 1 => lead % 0x20
    | 2 => lead % 0x10
    | _ => lead % 0x08
  rest.foldl (fun acc b => acc * 64 + b.toNat % 64) top

/-- Decodes bytes that start at a position. -/
def decodeUtf8From (position : Nat) (bytes : List UInt8) : Except Utf8Fault (List Char) :=
  match bytes with
  | [] => .ok []
  | b :: bs =>
    match leadByte? b.toNat with
    | none => .error { position, byte := b, count := 1, reason := .startByte }
    | some (len, lo, hi) =>
      let good := goodContinuations (len - 1) lo hi bs
      if good = len - 1 then
        match decodeUtf8From (position + len) (bs.drop (len - 1)) with
        | .ok cs => .ok (Char.ofNat (codePoint b.toNat (bs.take (len - 1))) :: cs)
        | .error f => .error f
      else if bs.length = good then
        .error { position, byte := b, count := good + 1, reason := .truncated }
      else
        .error { position, byte := b, count := good + 1, reason := .continuationByte }
  termination_by bytes.length
  decreasing_by simp only [List.length_drop, List.length_cons]; omega

/-- Line ends as newlines: a carriage return, with the newline after it if there is one, becomes a newline. -/
def normalizeNewlines : List Char → List Char
  | '\r' :: '\n' :: cs => '\n' :: normalizeNewlines cs
  | '\r' :: cs => '\n' :: normalizeNewlines cs
  | c :: cs => c :: normalizeNewlines cs
  | [] => []

/-- The text of a file: its bytes as UTF-8, line ends as newlines. -/
def decodeTextFile (bytes : List UInt8) : Except Utf8Fault String :=
  (decodeUtf8From 0 bytes).map (fun cs => String.ofList (normalizeNewlines cs))

end FormatAudit.Text
