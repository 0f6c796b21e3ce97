import Mathlib.Algebra.Group.Nat.Defs
import Mathlib.Data.Option.Basic

namespace Mmltk.Benchmark

/-! The response headers that the downloads read, line by line. -/

abbrev Text := List Char

def isHttpBlank (char : Char) : Bool := char = ' ' || char = '\t'

def isHttpTrailing (char : Char) : Bool := isHttpBlank char || char = '\r' || char = '\n'

def trimHttpFieldValue (value : Text) : Text :=
  ((value.dropWhile isHttpBlank).reverse.dropWhile isHttpTrailing).reverse

def startsWithCaseInsensitive (value expected : Text) : Bool :=
  (value.take expected.length).map Char.toLower == expected.map Char.toLower

/-- `std::from_chars` of an unsigned number below `bound`: its value, and what follows it. -/
def fromChars (bound : Nat) (text : Text) : Option (Nat × Text) :=
  let digits := text.takeWhile Char.isDigit
  let value := digits.foldl (fun value char => 10 * value + (char.toNat - '0'.toNat)) 0
  if digits = [] ∨ bound ≤ value then none else some (value, text.drop digits.length)

/-- The whole of `text` as a 64-bit number. -/
def wholeNumber (text : Text) : Option Nat :=
  match fromChars (2 ^ 64) text with
  | some (value, []) => some value
  | _ => none

/-- `std::from_chars` of a `long`, left at zero where it fails. -/
def statusCode (text : Text) : Int :=
  match text with
  | '-' :: digits => ((fromChars (2 ^ 63 + 1) digits).map fun parsed => -(parsed.1 : Int)).getD 0
  | digits => ((fromChars (2 ^ 63) digits).map fun parsed => (parsed.1 : Int)).getD 0

def splitRangeField (value : Text) (delimiter : Char) : Option (Text × Text) :=
  match value.span (· ≠ delimiter) with
  | (_, []) => none
  | (before, _ :: after) => some (before, after)

structure ParsedContentRange where
  start : Nat
  last : Nat
  total : Nat
  unsatisfied : Bool
  deriving DecidableEq, Repr

def parseContentRange (value : Text) : Option ParsedContentRange := do
  let header := trimHttpFieldValue value
  if ¬ startsWithCaseInsensitive header "bytes ".toList then none
  else
    let (range, totalText) ← splitRangeField (header.drop 6) '/'
    let total ← wholeNumber totalText
    if total = 0 then none
    else if range = ['*'] then some ⟨0, 0, total, true⟩
    else
      let (startText, endText) ← splitRangeField range '-'
      let start ← wholeNumber startText
      let last ← wholeNumber endText
      if last < start ∨ total ≤ last then none else some ⟨start, last, total, false⟩

inductive HttpHeaderKind where
  | statusLine
  | etag
  | lastModified
  | contentRange
  | other
  deriving DecidableEq, Repr

structure HttpResponseHeaderFields where
  responseCode : Int
  range : Option ParsedContentRange
  etag : Text
  lastModified : Text
  deriving DecidableEq, Repr

namespace HttpResponseHeaderFields

def none : HttpResponseHeaderFields := ⟨0, .none, [], []⟩

/-- One header line: a status line begins a new response. -/
def apply (http : HttpResponseHeaderFields) (header : Text) :
    HttpResponseHeaderFields × HttpHeaderKind :=
  if startsWithCaseInsensitive header "HTTP/".toList then
    let code :=
      match splitRangeField header ' ' with
      | .none => 0
      | some (_, rest) => statusCode rest
    (⟨code, .none, [], []⟩, .statusLine)
  else if startsWithCaseInsensitive header "ETag:".toList then
    ({ http with etag := trimHttpFieldValue (header.drop 5) }, .etag)
  else if startsWithCaseInsensitive header "Last-Modified:".toList then
    ({ http with lastModified := trimHttpFieldValue (header.drop 14) }, .lastModified)
  else if startsWithCaseInsensitive header "Content-Range:".toList then
    ({ http with range := parseContentRange (header.drop 14) }, .contentRange)
  else (http, .other)

end HttpResponseHeaderFields

def isHeaderBlockTerminator (header : Text) : Bool :=
  header = ['\r', '\n'] || header = ['\n']

/-- What is accepted as a range is one: it has bytes, and all of them are in the artifact. -/
theorem parseContentRange_sound {value : Text} {range : ParsedContentRange}
    (h : parseContentRange value = some range) :
    0 < range.total ∧ (range.unsatisfied = false → range.start ≤ range.last ∧
      range.last < range.total) := by
  simp only [parseContentRange, Option.bind_eq_bind] at h
  split at h
  · cases h
  obtain ⟨⟨text, totalText⟩, -, h⟩ := Option.bind_eq_some_iff.mp h
  obtain ⟨total, -, h⟩ := Option.bind_eq_some_iff.mp h
  split at h
  · cases h
  next hpositive =>
  split at h
  · cases h
    exact ⟨Nat.pos_of_ne_zero hpositive, fun hsatisfied => nomatch hsatisfied⟩
  obtain ⟨⟨startText, endText⟩, -, h⟩ := Option.bind_eq_some_iff.mp h
  obtain ⟨start, -, h⟩ := Option.bind_eq_some_iff.mp h
  obtain ⟨last, -, h⟩ := Option.bind_eq_some_iff.mp h
  split at h
  · cases h
  next hordered =>
    cases h
    rw [not_or, Nat.not_lt, Nat.not_le] at hordered
    exact ⟨Nat.pos_of_ne_zero hpositive, fun _ => hordered⟩

/-- The range after a header line: none, the one on the line, or the one before it. -/
theorem HttpResponseHeaderFields.apply_range (http : HttpResponseHeaderFields) (header : Text) :
    ((http.apply header).2 = .statusLine ∧ (http.apply header).1.range = Option.none) ∨
      ((http.apply header).2 = .contentRange ∧
        (http.apply header).1.range = parseContentRange (header.drop 14)) ∨
      ((http.apply header).2 ≠ .statusLine ∧ (http.apply header).2 ≠ .contentRange ∧
        (http.apply header).1.range = http.range) := by
  unfold HttpResponseHeaderFields.apply
  split
  · exact .inl ⟨rfl, rfl⟩
  split
  · exact .inr (.inr ⟨(nomatch ·), (nomatch ·), rfl⟩)
  split
  · exact .inr (.inr ⟨(nomatch ·), (nomatch ·), rfl⟩)
  split
  · exact .inr (.inl ⟨rfl, rfl⟩)
  · exact .inr (.inr ⟨(nomatch ·), (nomatch ·), rfl⟩)

example : parseContentRange " bytes 2-3/4\r\n".toList = some ⟨2, 3, 4, false⟩ := by decide

end Mmltk.Benchmark
