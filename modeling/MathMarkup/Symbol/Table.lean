import MathMarkup.Diagnostic
import MathMarkup.Symbol.Kind
import MathMarkup.Value

/-!
# Symbol tables

A symbol table holds one descriptor for each key, in the order in which the keys came.  Entries
are registered under one or more keys at a time.  Under the policy `refuse` a key that is already
there stops the registration; the keys before it stay.

* `SymbolTable.lookup` finds the descriptor under a key.
* `SymbolTable.longest` is the length of the longest key.
* `SymbolTable.add` and `SymbolTable.update` register entries and say what went wrong.
-/

namespace MathMarkup

/-- What a table says about a key. -/
structure Descriptor where
  /-- The symbol id or the text to show; an invisible symbol has none. -/
  value : Option String
  kind : Kind
  /-- The key of the entry. -/
  text : String
  extra : Metadata := []
  deriving DecidableEq

/-- Whether two descriptors agree but for their metadata. -/
def Descriptor.agrees (d e : Descriptor) : Bool :=
  d.value == e.value && d.kind == e.kind && d.text == e.text

/-- One entry under several keys. -/
structure Registration where
  keys : List String
  value : Option String
  kind : Kind
  extra : Metadata := []

/-- The positional arguments of a registration, in the order `key …, value, kind`. -/
inductive Arguments where
  /-- There are too few for a key, a value and a kind. -/
  | few (given : Nat) (h : given < 3)
  | full (key : String) (keys : List String) (value : Option String) (kind : Kind)

/-- What can go wrong when an entry is registered. -/
inductive TableError where
  /-- There were too few arguments. -/
  | insufficient (given : Nat)
  /-- The key is there already and may not be replaced. -/
  | duplicate (key : String)
  deriving DecidableEq

/-- The report of a table error. -/
def TableError.diagnostic : TableError → Diagnostic
  | .insufficient given =>
    ⟨some "E0101",
      "Insufficient arguments: expected at least one key, a value and a kind, got " ++
        toString given⟩
  | .duplicate key => ⟨some "E0101", "Symbol '" ++ key ++ "' is already defined"⟩

/-- The key that a table error is about. -/
def TableError.spelling : TableError → Option String
  | .insufficient _ => none
  | .duplicate key => some key

/-- The entry that arguments describe, if there are enough of them. -/
def Registration.ofArguments (arguments : Arguments) (extra : Metadata) :
    Except TableError Registration :=
  match arguments with
  | .few given _ => .error (.insufficient given)
  | .full key keys value kind => .ok ⟨key :: keys, value, kind, extra⟩

/-- Whether an entry may take the place of another. -/
inductive Policy where
  | replace
  | refuse
  deriving DecidableEq

/-- Descriptors under their keys, in the order in which the keys came. -/
structure SymbolTable where
  entries : KeyedList Descriptor

namespace SymbolTable

/-- The table without entries. -/
def empty : SymbolTable := ⟨[]⟩

/-- The descriptor under a key. -/
def lookup (t : SymbolTable) (key : String) : Option Descriptor :=
  t.entries.value? key

/-- The descriptor of a symbol id, if there is an id. -/
def resolve (t : SymbolTable) (id : Option String) : Option Descriptor :=
  id.bind t.lookup

/-- The keys in order. -/
def keys (t : SymbolTable) : List String :=
  t.entries.keys

/-- The number of entries. -/
def size (t : SymbolTable) : Nat :=
  t.entries.length

/-- The length of the longest key. -/
def longest (t : SymbolTable) : Nat :=
  (t.keys.map String.length).foldr max 0

/-- A table in one line. -/
def literal (t : SymbolTable) : String :=
  "SymbolTable(" ++ toString t.size ++ " entries)"

/-- Whether two tables have the same keys, in any order, and agree on each. -/
def agrees (t u : SymbolTable) : Bool :=
  t.size == u.size &&
    t.entries.all fun (key, d) => (u.lookup key).any d.agrees

/-- The table with the given entries, whose keys must be distinct. -/
def ofRegistrations (rs : List Registration) : SymbolTable :=
  ⟨rs.flatMap fun r => r.keys.map fun key => (key, ⟨r.value, r.kind, key, r.extra⟩)⟩

/-- The table after an entry was set under a key. -/
def set (t : SymbolTable) (key : String) (value : Option String) (kind : Kind)
    (extra : Metadata) : SymbolTable :=
  ⟨t.entries.set key ⟨value, kind, key, extra⟩⟩

/-- Sets an entry under each key in turn, up to the first key that the policy refuses. -/
def register (policy : Policy) (value : Option String) (kind : Kind) (extra : Metadata) :
    SymbolTable → List String → SymbolTable × Option TableError
  | t, [] => (t, none)
  | t, key :: keys =>
    if policy = .refuse ∧ (t.lookup key).isSome then
      (t, some (.duplicate key))
    else
      register policy value kind extra (t.set key value kind extra) keys

/-- Registers the entry that the arguments describe. -/
def add (policy : Policy) (t : SymbolTable) (arguments : Arguments) (extra : Metadata) :
    SymbolTable × Option TableError :=
  match Registration.ofArguments arguments extra with
  | .error e => (t, some e)
  | .ok r => register policy r.value r.kind r.extra t r.keys

/-- Registers entries one by one, up to the first that the policy refuses. -/
def addEntries (policy : Policy) :
    SymbolTable → KeyedList Descriptor → SymbolTable × Option TableError
  | t, [] => (t, none)
  | t, (key, d) :: entries =>
    match register policy d.value d.kind d.extra t [key] with
    | (t, none) => addEntries policy t entries
    | (t, some e) => (t, some e)

/-- Registers every entry of another table. -/
def update (policy : Policy) (t other : SymbolTable) : SymbolTable × Option TableError :=
  t.addEntries policy other.entries

end SymbolTable

end MathMarkup
