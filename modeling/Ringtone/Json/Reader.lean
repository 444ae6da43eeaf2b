import Ringtone.Json.Token

/-!
# Reading JSON

The reader goes through the tokens once, with a stack of the lists and objects that are open, of
which there may be as many as there is room for. What it waits for is its state; the first token
that does not belong there is the fault. Of members of one name the last value counts, in the place
of the first.
-/

namespace Ringtone.Json

open Text

/-- Why a text has no value. -/
inductive ReadFault where
  /-- It is not JSON, from the character at a position on. -/
  | malformed (reason : Reason) (position : Nat)
  /-- A numeral has too many digits. -/
  | longNumeral (digits : Nat)
  /-- Lists and objects are nested too deeply. -/
  | nesting

/-- A list or an object that is open, with what it holds so far. -/
inductive Frame where
  /-- A list; its last item comes first. -/
  | list (items : List Value)
  /-- An object, and the name whose value is due. -/
  | object (members : Members) (name : Points)

/-- What the reader waits for. -/
inductive State where
  /-- A value. -/
  | value (stack : List Frame)
  /-- The first item of a list, or its end. -/
  | firstItem (stack : List Frame)
  /-- The first name of an object, or its end. -/
  | firstName (stack : List Frame)
  /-- A name of an object. -/
  | name (stack : List Frame) (members : Members)
  /-- The colon after a name. -/
  | colon (stack : List Frame) (members : Members) (name : Points)
  /-- A comma or the end of a list. -/
  | afterItem (stack : List Frame) (items : List Value)
  /-- A comma or the end of an object. -/
  | afterMember (stack : List Frame) (members : Members)
  /-- The end of the text. -/
  | finished (value : Value)

/-- A token that does not belong where it stands. -/
inductive Stop where
  /-- A fault at a number of characters from the end. -/
  | broken (fault : Broken)
  /-- A numeral with too many digits. -/
  | longNumeral (digits : Nat)
  /-- One list or object too many within another. -/
  | nesting

/-- The state after a value is complete. -/
def deliver (stack : List Frame) (value : Value) : State :=
  match stack with
  | [] => .finished value
  | .list items :: rest => .afterItem rest (value :: items)
  | .object members name :: rest => .afterMember rest (members.set name value)

/-- The state after a list or an object is opened, unless too many are open. -/
def openWithin (nesting : Value.Nesting) (stack : List Frame) (opened : State) :
    Except Stop State :=
  if stack.length < nesting.levels then .ok opened else .error .nesting

/-- The state after a token where a value is due. -/
def takeValue (nesting : Value.Nesting) (stack : List Frame) (placed : Placed) :
    Except Stop State :=
  match placed.token with
  | .scalar value => .ok (deliver stack value)
  | .string text => .ok (deliver stack (.text text))
  | .openList => openWithin nesting stack (.firstItem stack)
  | .openObject => openWithin nesting stack (.firstName stack)
  | .longNumeral digits => .error (.longNumeral digits)
  | .brokenString fault => .error (.broken fault)
  | _ => .error (.broken ⟨.value, placed.left⟩)

/-- The state after a token where a name is due. -/
def takeName (stack : List Frame) (members : Members) (placed : Placed) : Except Stop State :=
  match placed.token with
  | .string name => .ok (.colon stack members name)
  | .brokenString fault => .error (.broken fault)
  | _ => .error (.broken ⟨.name, placed.left⟩)

/-- The state after a token. -/
def step (nesting : Value.Nesting) (state : State) (placed : Placed) : Except Stop State :=
  match state, placed.token with
  | .value stack, _ => takeValue nesting stack placed
  | .firstItem stack, .closeList => .ok (deliver stack (.list []))
  | .firstItem stack, _ => takeValue nesting (.list [] :: stack) placed
  | .firstName stack, .closeObject => .ok (deliver stack (.object []))
  | .firstName stack, _ => takeName stack [] placed
  | .name stack members, _ => takeName stack members placed
  | .colon stack members name, .colon => .ok (.value (.object members name :: stack))
  | .colon _ _ _, _ => .error (.broken ⟨.colon, placed.left⟩)
  | .afterItem stack items, .closeList => .ok (deliver stack (.list items.reverse))
  | .afterItem stack items, .comma => .ok (.value (.list items :: stack))
  | .afterItem _ _, _ => .error (.broken ⟨.comma, placed.left⟩)
  | .afterMember stack members, .closeObject => .ok (deliver stack (.object members))
  | .afterMember stack members, .comma => .ok (.name stack members)
  | .afterMember _ _, _ => .error (.broken ⟨.comma, placed.left⟩)
  | .finished _, _ => .error (.broken ⟨.extra, placed.left⟩)

/-- What the end of the text means in a state. -/
def finish : State → Except Stop Value
  | .finished value => .ok value
  | .value _ | .firstItem _ => .error (.broken ⟨.value, 0⟩)
  | .firstName _ | .name _ _ => .error (.broken ⟨.name, 0⟩)
  | .colon _ _ _ => .error (.broken ⟨.colon, 0⟩)
  | .afterItem _ _ | .afterMember _ _ => .error (.broken ⟨.comma, 0⟩)

/-- The value of a sequence of tokens. -/
def readTokens (nesting : Value.Nesting) (tokens : List Placed) : Except Stop Value :=
  tokens.foldlM (step nesting) (.value []) >>= finish

/-- The fault that a stop is in a text of a given length. -/
def Stop.fault (length : Nat) : Stop → ReadFault
  | .broken ⟨reason, left⟩ => .malformed reason (length - left)
  | .longNumeral digits => .longNumeral digits
  | .nesting => .nesting

/-- The value of a JSON text. -/
def readWithin (nesting : Value.Nesting) (text : List Char) : Except ReadFault Value :=
  if text.head? = some '\uFEFF' then .error (.malformed .byteOrderMark 0)
  else (readTokens nesting (tokens text)).mapError (Stop.fault text.length)

/-- The value of a JSON text where there is the usual room. -/
def read (text : List Char) : Except ReadFault Value := readWithin .usual text

/-! ## Messages -/

/-- The words for a reason. -/
def Reason.text : Reason → String
  | .value => "Expecting value"
  | .name => "Expecting property name enclosed in double quotes"
  | .colon => "Expecting ':' delimiter"
  | .comma => "Expecting ',' delimiter"
  | .extra => "Extra data"
  | .unterminated => "Unterminated string starting at"
  | .control => "Invalid control character at"
  | .escape => "Invalid \\escape"
  | .numberedEscape => "Invalid \\uXXXX escape"
  | .byteOrderMark => "Unexpected UTF-8 BOM (decode using utf-8-sig)"

/-- The words for a reason at a position of a text, with line and column counted from one. -/
def faultMessage (text : List Char) (reason : Reason) (position : Nat) : String :=
  let before := text.take position
  let line := before.count '\n' + 1
  let column := (before.reverse.takeWhile (· ≠ '\n')).length + 1
  reason.text ++ ": line " ++ Number.numeral line ++ " column " ++ Number.numeral column
    ++ " (char " ++ Number.numeral position ++ ")"

end Ringtone.Json
