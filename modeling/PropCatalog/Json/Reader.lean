import PropCatalog.Json.Token

/-!
# Reading JSON

A text is read token by token over a stack of the containers that are open. A name that an object
has twice keeps its first place and takes its last value. The number of containers that may be open
at once is limited.
-/

namespace PropCatalog.Json

/-- A container that is open while one of its parts is read. -/
inductive Frame where
  /-- An array, with the items read so far, the last one first. -/
  | array (items : List Value)
  /-- An object, with the fields read so far and the name whose value is being read. -/
  | object (fields : List (Text × Value)) (name : Text)

/-- What the reader expects next. -/
inductive Expected where
  | value
  /-- A value or the end of the array just opened. -/
  | item
  /-- A field name of an object with the given fields; the end too, if `first` holds. -/
  | name (fields : List (Text × Value)) (first : Bool)
  | colon (fields : List (Text × Value)) (name : Text)
  /-- A comma, a closer or the end of the text, after the given value. -/
  | follow (value : Value)

/-- The state of the reader: the open containers, the innermost one first, and what comes next. -/
structure Reading where
  stack : List Frame
  expected : Expected

namespace Reading

/-- The most containers that may be open at once. -/
def nestingLimit : Nat := 127

/-- Starts a value with a token. -/
def begin? (limit : Nat) (stack : List Frame) : Token → Option Reading
  | .scalar s => some ⟨stack, .follow (.scalar s)⟩
  | .openArray => if stack.length < limit then some ⟨.array [] :: stack, .item⟩ else none
  | .openObject => if stack.length < limit then some ⟨stack, .name [] true⟩ else none
  | _ => none

/-- Goes on after a complete value. -/
def follow? (value : Value) : List Frame → Token → Option Reading
  | .array items :: stack, .comma => some ⟨.array (value :: items) :: stack, .value⟩
  | .array items :: stack, .closeArray => some ⟨stack, .follow (.array (value :: items).reverse)⟩
  | .object fields name :: stack, .comma => some ⟨stack, .name (setField name value fields) false⟩
  | .object fields name :: stack, .closeObject =>
    some ⟨stack, .follow (.object (setField name value fields))⟩
  | _, _ => none

/-- Takes one token. -/
def step? (limit : Nat) (r : Reading) (t : Token) : Option Reading :=
  match r.expected with
  | .value => begin? limit r.stack t
  | .item =>
    match r.stack, t with
    | .array items :: stack, .closeArray => some ⟨stack, .follow (.array items)⟩
    | stack, t => begin? limit stack t
  | .name fields first =>
    match t with
    | .scalar (.string name) => some ⟨r.stack, .colon fields name⟩
    | .closeObject => if first then some ⟨r.stack, .follow (.object fields)⟩ else none
    | _ => none
  | .colon fields name => if t = .colon then some ⟨.object fields name :: r.stack, .value⟩ else none
  | .follow value => follow? value r.stack t

/-- The value, when the reading is complete. -/
def result? (r : Reading) : Option Value :=
  match r.stack, r.expected with
  | [], .follow value => some value
  | _, _ => none

end Reading

/-- The value that a text denotes, with at most `limit` containers open at once. -/
def read? (limit : Nat) (s : Text) : Option Value := do
  let tokens ← Token.scan? s
  let r ← tokens.foldlM (Reading.step? limit) ⟨[], .value⟩
  r.result?

end PropCatalog.Json
