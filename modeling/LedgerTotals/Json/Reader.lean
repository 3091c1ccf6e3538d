/-
Reading typed values from a JSON text.

A reader goes through the text once, from the front, and stops at the first thing that is wrong. A
value of another kind than the one asked for is wrong as soon as its kind is clear: numbers and
strings are read to their end for that, lists and objects are not entered.
-/
import LedgerTotals.Json.Quoted
import LedgerTotals.Json.Number

namespace LedgerTotals.Json

def isSpace (c : Char) : Bool := c = ' ' || c = '\n' || c = '\t' || c = '\r'

/-- the text from its next token on -/
def skipSpace (cs : List Char) : List Char := cs.dropWhile isSpace

/-- the characters of a word, one after another -/
def word : List Char → List Char → Except JsonError (List Char)
  | [], cs => .ok cs
  | _ :: _, [] => .error .endInValue
  | w :: ws, c :: cs => if c = w then word ws cs else .error .expectedWord

/-- the error for a value that stands where `expected` was asked for -/
def mismatch (expected : String) : List Char → JsonError
  | [] => .endInValue
  | c :: r =>
    let found : Except JsonError Found :=
      if c = 'n' then (word "ull".toList r).map fun _ => .null
      else if c = 't' then (word "rue".toList r).map fun _ => .boolean true
      else if c = 'f' then (word "alse".toList r).map fun _ => .boolean false
      else if c = '-' then (readNumber true r).map fun p => p.1.found
      else if Digits.isDigit c then (readNumber false (c :: r)).map fun p => p.1.found
      else if c = '"' then (readString r).map fun p => .string p.1
      else if c = '[' then .ok .sequence
      else if c = '{' then .ok .map
      else .error .expectedValue
    match found with
    | .ok f => .wrongType f expected
    | .error e => e

/-! ## plain values -/

/-- a string, of which `expected` says what it stands for -/
def readTextAs (expected : String) : Reader String := fun cs =>
  match skipSpace cs with
  | '"' :: r => readString r
  | r => .error (mismatch expected r)

def readText : Reader String := readTextAs "a string"

def readBool : Reader Bool := fun cs =>
  match skipSpace cs with
  | 't' :: r => (word "rue".toList r).map ((true, ·))
  | 'f' :: r => (word "alse".toList r).map ((false, ·))
  | r => .error (mismatch "a boolean" r)

/-- a number as one of 0 to 255 -/
def Number.toByte : Number → Except JsonError Nat
  | .natural n => if n ≤ 255 then .ok n else .error (.wrongValue (.natural n) "u8")
  | .negative n => .error (.wrongValue (.negative n) "u8")
  | .float sign d => .error (.wrongType (.float (d.text sign)) "u8")

def readByte : Reader Nat := fun cs =>
  match skipSpace cs with
  | [] => .error .endInValue
  | c :: r =>
    if c = '-' then (readNumber true r).bind fun p => p.1.toByte.map ((·, p.2))
    else if Digits.isDigit c then (readNumber false (c :: r)).bind fun p => p.1.toByte.map ((·, p.2))
    else .error (mismatch "u8" (c :: r))

/-- `null`, or a value -/
def readOptional {α : Type} (item : Reader α) : Reader (Option α) := fun cs =>
  match skipSpace cs with
  | 'n' :: r => (word "ull".toList r).map ((none, ·))
  | r => (item r).map fun p => (some p.1, p.2)

/-- a string that is read further by `parse` -/
def readParsed {α ε : Type} (expected : String) (parse : String → Except ε α)
    (message : ε → String) : Reader α := fun cs =>
  (readTextAs expected cs).bind fun p =>
    match parse p.1 with
    | .ok a => .ok (a, p.2)
    | .error e => .error (.refused (message e))

def colon (cs : List Char) : Except JsonError (List Char) :=
  match skipSpace cs with
  | [] => .error .endInObject
  | c :: r => if c = ':' then .ok r else .error .expectedColon

/-- the key of an object that has to have one, after its opening brace -/
def onlyKey : Reader String := fun cs =>
  match skipSpace cs with
  | [] => .error .endInObject
  | c :: r =>
    if c = '"' then readString r
    else if c = '}' then .error .expectedValue
    else .error .keyNotString

/-- one of several words, as a string or as the only key of an object with the value `null` -/
def readChoice {α : Type} (choices : Choices α) : Reader α := fun cs =>
  let find (name : String) : Except JsonError α :=
    (choices.pick name).mapError .unknownVariant
  match skipSpace cs with
  | [] => .error .endInValue
  | c :: r =>
    if c = '"' then (readString r).bind fun p => (find p.1).map ((·, p.2))
    else if c = '{' then do
      let (name, r) ← onlyKey r
      let a ← find name
      let r ← colon r
      match skipSpace r with
      | 'n' :: r =>
        let r ← word "ull".toList r
        match skipSpace r with
        | [] => .error .endInObject
        | d :: r => if d = '}' then .ok (a, r) else .error .expectedValue
      | r => .error (mismatch "unit" r)
    else .error .expectedValue

/-! ## values that are not asked for -/

/-- what is being skipped: a list or an object -/
inductive Frame where
  | list
  | object
  deriving DecidableEq

/-- where a skip stands: before a value, right after an opening bracket, or after a value -/
inductive SkipPoint where
  | value
  | opened
  | after

/-- one value without what it contains; `some` frame if it opens one -/
def skipHead : List Char → Except JsonError (Option Frame × List Char)
  | [] => .error .endInValue
  | c :: r =>
    if c = 'n' then (word "ull".toList r).map ((none, ·))
    else if c = 't' then (word "rue".toList r).map ((none, ·))
    else if c = 'f' then (word "alse".toList r).map ((none, ·))
    else if c = '-' then (skipNumber r).map ((none, ·))
    else if Digits.isDigit c then (skipNumber (c :: r)).map ((none, ·))
    else if c = '"' then (skipString .plain r).map ((none, ·))
    else if c = '[' then .ok (some .list, r)
    else if c = '{' then .ok (some .object, r)
    else .error .expectedValue

/-- the text of an element up to its value: nothing in a list, key and colon in an object -/
def skipToValue : Frame → List Char → Except JsonError (List Char)
  | .list, cs => .ok cs
  | .object, cs =>
    match skipSpace cs with
    | [] => .error .endInObject
    | c :: r => if c = '"' then (skipString .plain r).bind colon else .error .keyNotString

def Frame.closing : Frame → Char
  | .list => ']'
  | .object => '}'

/-- the text ends inside the frame -/
def Frame.ended : Frame → JsonError
  | .list => .endInList
  | .object => .endInObject

/-- neither a comma nor the closing bracket follows an element -/
def Frame.unexpected : Frame → JsonError
  | .list => .expectedListCommaOrEnd
  | .object => .expectedObjectCommaOrEnd

/-- the value at the front of a text, with all that it contains; each step takes a character -/
def skipFrom : Nat → SkipPoint → List Frame → List Char → Except JsonError (List Char)
  | 0, _, _, _ => .error .endInValue
  | n + 1, .value, frames, cs => do
    let (opened, r) ← skipHead (skipSpace cs)
    match opened, frames with
    | some f, _ => skipFrom n .opened (f :: frames) r
    | none, [] => .ok r
    | none, _ :: _ => skipFrom n .after frames r
  | _ + 1, .opened, [], cs => .ok cs
  | n + 1, .opened, f :: frames, cs =>
    match skipSpace cs with
    | [] => .error f.ended
    | c :: r =>
      if c = f.closing then
        if frames.isEmpty then .ok r else skipFrom n .after frames r
      else do
        let r ← skipToValue f (c :: r)
        skipFrom n .value (f :: frames) r
  | _ + 1, .after, [], cs => .ok cs
  | n + 1, .after, f :: frames, cs =>
    match skipSpace cs with
    | [] => .error f.ended
    | c :: r =>
      if c = ',' then do
        let r ← skipToValue f r
        skipFrom n .value (f :: frames) r
      else if c = f.closing then
        if frames.isEmpty then .ok r else skipFrom n .after frames r
      else .error f.unexpected

/-- the value at the front of a text, checked for its form -/
def skipValue (cs : List Char) : Except JsonError (List Char) :=
  skipFrom (2 * cs.length + 1) .value [] cs

/-! ## lists -/

/-- what comes next in a list or an object -/
inductive Next where
  | closed (rest : List Char)
  | item (rest : List Char)

/-- the next element of a list, or its end -/
def nextElement (first : Bool) (cs : List Char) : Except JsonError Next :=
  match skipSpace cs with
  | [] => .error .endInList
  | c :: r =>
    if c = ']' then .ok (.closed r)
    else if first then .ok (.item (c :: r))
    else if c = ',' then
      match skipSpace r with
      | [] => .error .endInValue
      | d :: r => if d = ']' then .error .trailingComma else .ok (.item (d :: r))
    else .error .expectedListCommaOrEnd

/-- the elements of a list, after those in `acc` in reverse -/
def readElements {α : Type} (item : Reader α) : Nat → Bool → List α → Reader (List α)
  | 0, _, _, _ => .error .endInList
  | n + 1, first, acc, cs => do
    match ← nextElement first cs with
    | .closed r => .ok (acc.reverse, r)
    | .item r =>
      let (a, r) ← item r
      readElements item n false (a :: acc) r

def readList {α : Type} (item : Reader α) : Reader (List α) := fun cs =>
  match skipSpace cs with
  | '[' :: r => readElements item (r.length + 1) true [] r
  | r => .error (mismatch "a sequence" r)

/-! ## records -/

/-- a field of a record whose parts read so far make up a `σ` -/
structure RecordField (σ : Type) where
  name : String
  required : Bool
  filled : σ → Bool
  read : σ → Reader σ

/-- a field that stores its value in a draft -/
def RecordField.of {σ α : Type} (name : String) (required : Bool) (get : σ → Option α)
    (set : σ → α → σ) (item : Reader α) : RecordField σ :=
  ⟨name, required, fun s => (get s).isSome, fun s cs => (item cs).map fun p => (set s p.1, p.2)⟩

/-- the next key of an object, after its opening quotation mark, or the end of the object -/
def nextKey (first : Bool) (cs : List Char) : Except JsonError Next :=
  match skipSpace cs with
  | [] => .error .endInObject
  | c :: r =>
    if c = '}' then .ok (.closed r)
    else if first then if c = '"' then .ok (.item r) else .error .keyNotString
    else if c = ',' then
      match skipSpace r with
      | [] => .error .endInValue
      | d :: r =>
        if d = '"' then .ok (.item r)
        else if d = '}' then .error .trailingComma
        else .error .keyNotString
    else .error .expectedObjectCommaOrEnd

/-- the members of an object; keys that name no field are skipped -/
def readMembers {σ : Type} (fields : List (RecordField σ)) : Nat → Bool → σ → Reader σ
  | 0, _, _, _ => .error .endInObject
  | n + 1, first, draft, cs => do
    match ← nextKey first cs with
    | .closed r =>
      match fields.find? fun f => f.required && !f.filled draft with
      | some f => .error (.missingField f.name)
      | none => .ok (draft, r)
    | .item r =>
      let (key, r) ← readString r
      match fields.find? (·.name == key) with
      | none =>
        let r ← colon r
        let r ← skipValue r
        readMembers fields n false draft r
      | some f =>
        if f.filled draft then .error (.duplicateField f.name)
        else
          let r ← colon r
          let (draft, r) ← f.read draft r
          readMembers fields n false draft r

/-- the end of a list that has given all its fields -/
def listEnd (cs : List Char) : Except JsonError (List Char) :=
  match skipSpace cs with
  | [] => .error .endInList
  | c :: r =>
    if c = ']' then .ok r
    else if c = ',' then
      match skipSpace r with
      | ']' :: _ => .error .trailingComma
      | _ => .error .trailingCharacters
    else .error .trailingCharacters

/-- the fields of a record in their order, as the elements of a list; `i` of them are read -/
def readSlots {σ : Type} (expected : String) : List (RecordField σ) → Nat → σ → Reader σ
  | [], _, draft, cs => (listEnd cs).map ((draft, ·))
  | f :: fields, i, draft, cs => do
    match ← nextElement (i == 0) cs with
    | .closed r =>
      match (f :: fields).findIdx? (·.required) with
      | some k => .error (.wrongLength (i + k) expected)
      | none => .ok (draft, r)
    | .item r =>
      let (draft, r) ← f.read draft r
      readSlots expected fields (i + 1) draft r

/-- a record as an object, or as a list of its fields in their order -/
def readRecord {σ : Type} (name : String) (fields : List (RecordField σ)) (start : σ) : Reader σ :=
  fun cs =>
    match skipSpace cs with
    | '{' :: r => readMembers fields (r.length + 1) true start r
    | '[' :: r =>
      readSlots ("struct " ++ name ++ " with " ++ Digits.text fields.length ++ " elements")
        fields 0 start r
    | r => .error (mismatch ("struct " ++ name) r)

/-- the reader of a finished record, from the reader of its draft -/
def finish {σ α : Type} (draft : Reader σ) (f : σ → α) : Reader α := fun cs =>
  (draft cs).map fun p => (f p.1, p.2)

/-! ## whole texts -/

/-- a text that holds one value and nothing else -/
def readAll {α : Type} (item : Reader α) (s : String) : Except JsonError α := do
  let (a, r) ← item s.toList
  if skipSpace r = [] then .ok a else .error .trailingCharacters

end LedgerTotals.Json
