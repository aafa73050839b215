import FieldRules.Json.Number
import FieldRules.Json.Quoted

/-!
# Reading JSON

* `Json.read` is the value that a text stands for.
* `Json.ReadError` tells a malformed text from a number beyond the range of binary64.

A text is read from left to right, so that the first fault decides which error it is. A byte order
mark at the very start is skipped, and a NUL byte where a token would begin ends the text.
-/

namespace FieldRules.Json

/-- Why a text stands for no value. -/
inductive ReadError
  | malformed
  | outOfRange (token : Bytes)
  deriving DecidableEq, Repr

/-- White space between tokens: tab, line feed, carriage return and space. -/
def isBlank (b : UInt8) : Bool :=
  b == Ascii.tab || b == Ascii.lineFeed || b == Ascii.carriageReturn || b == Ascii.space

/-- A text from its next token on. -/
def skipBlanks (s : Bytes) : Bytes :=
  s.dropWhile isBlank

/-- Takes a word off that stands for a value. -/
def readWord (word : Bytes) (value : Json) (s : Bytes) : Except ReadError (Json × Bytes) :=
  match Bytes.dropPrefix? word s with
  | some rest => .ok (value, rest)
  | none => .error .malformed

/-- Takes a number off. -/
def readNumber (s : Bytes) : Except ReadError (Json × Bytes) :=
  match NumberToken.scan s with
  | none => .error .malformed
  | some (token, rest) =>
    match token.value with
    | some value => .ok (value, rest)
    | none => .error (.outOfRange token.text)

/-- Takes a string off that follows an opening quote. -/
def readString (s : Bytes) : Except ReadError (Bytes × Bytes) :=
  match Quoted.scan s with
  | some found => .ok found
  | none => .error .malformed

/-- Takes the key of a member off, with the colon behind it. -/
def readKey (s : Bytes) : Except ReadError (Bytes × Bytes) :=
  match skipBlanks s with
  | [] => .error .malformed
  | b :: rest =>
    if b = Ascii.quote then do
      let (key, rest) ← readString rest
      match skipBlanks rest with
      | [] => .error .malformed
      | c :: rest => if c = Ascii.colon then .ok (key, rest) else .error .malformed
    else .error .malformed

/-- Takes a comma or a closing bracket off, and tells whether it was a comma. -/
def readSeparator (close : UInt8) (s : Bytes) : Except ReadError (Bool × Bytes) :=
  match skipBlanks s with
  | [] => .error .malformed
  | b :: rest =>
    if b = Ascii.comma then .ok (true, rest)
    else if b = close then .ok (false, rest)
    else .error .malformed

mutual

/-- Takes a value off that begins at the next token. `fuel` bounds the steps. An opening bracket
takes two of them and any other byte one at most, so that twice the number of bytes and two are
enough. -/
def readValue : (fuel : Nat) → Bytes → Except ReadError (Json × Bytes)
  | 0, _ => .error .malformed
  | fuel + 1, s =>
    match skipBlanks s with
    | [] => .error .malformed
    | b :: rest =>
      if b = Ascii.quote then do
        let (text, rest) ← readString rest
        return (.string text, rest)
      else if b = Ascii.openBracket then
        match skipBlanks rest with
        | [] => .error .malformed
        | c :: after =>
          if c = Ascii.closeBracket then .ok (.array [], after)
          else do
            let (items, rest) ← readItems fuel rest
            return (.array items, rest)
      else if b = Ascii.openBrace then
        match skipBlanks rest with
        | [] => .error .malformed
        | c :: after =>
          if c = Ascii.closeBrace then .ok (.object [], after)
          else do
            let (members, rest) ← readMembers fuel rest
            return (ofMembers members, rest)
      else if b = 0x74 then readWord (utf8 "true") (.bool true) (b :: rest)
      else if b = 0x66 then readWord (utf8 "false") (.bool false) (b :: rest)
      else if b = 0x6E then readWord (utf8 "null") .null (b :: rest)
      else readNumber (b :: rest)

/-- Takes the values of an array off, one at least, up to the closing bracket. -/
def readItems : (fuel : Nat) → Bytes → Except ReadError (List Json × Bytes)
  | 0, _ => .error .malformed
  | fuel + 1, s => do
    let (item, rest) ← readValue fuel s
    let (more, rest) ← readSeparator Ascii.closeBracket rest
    if more then do
      let (items, rest) ← readItems fuel rest
      return (item :: items, rest)
    else return ([item], rest)

/-- Takes the members of an object off, one at least, up to the closing brace. -/
def readMembers : (fuel : Nat) → Bytes → Except ReadError (List (Bytes × Json) × Bytes)
  | 0, _ => .error .malformed
  | fuel + 1, s => do
    let (key, rest) ← readKey s
    let (value, rest) ← readValue fuel rest
    let (more, rest) ← readSeparator Ascii.closeBrace rest
    if more then do
      let (members, rest) ← readMembers fuel rest
      return ((key, value) :: members, rest)
    else return ([(key, value)], rest)

end

/-- The byte order mark of UTF-8. -/
def byteOrderMark : Bytes := [0xEF, 0xBB, 0xBF]

/-- A text without the byte order mark it begins with. -/
def skipByteOrderMark (text : Bytes) : Bytes :=
  (Bytes.dropPrefix? byteOrderMark text).getD text

/-- Holds if no token is left: the text is over, or goes on with a NUL byte. -/
def isEnd (rest : Bytes) : Bool :=
  match skipBlanks rest with
  | [] => true
  | b :: _ => b == 0

/-- The value that a text stands for. -/
def read (text : Bytes) : Except ReadError Json := do
  let body := skipByteOrderMark text
  let (value, rest) ← readValue (2 * body.length + 2) body
  if isEnd rest then return value else .error .malformed

end FieldRules.Json
