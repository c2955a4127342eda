import RecordGate.Text.Case

/-! # Operations and actions

  A field allows a set of the four operations; a route gives rules to the five
  actions. Reading one record and listing all of them are two actions that
  show the same fields.
-/

namespace RecordGate

/-- What can be done with a field. -/
inductive Operation where
  | create
  | read
  | update
  | delete
  deriving DecidableEq, Repr, Inhabited

namespace Operation

/-- All four, in their order. -/
def all : List Operation := [create, read, update, delete]

/-- The name. -/
def name : Operation → String
  | create => "create"
  | read => "read"
  | update => "update"
  | delete => "delete"

/-- The letter. -/
def letter : Operation → Char
  | create => 'c'
  | read => 'r'
  | update => 'u'
  | delete => 'd'

/-- Reads a name in any case. -/
def ofName? (s : String) : Option Operation :=
  match Text.lower s with
  | "create" => some create
  | "read" => some read
  | "update" => some update
  | "delete" => some delete
  | _ => none

/-- Reads a letter. -/
def ofLetter? : Char → Option Operation
  | 'c' => some create
  | 'r' => some read
  | 'u' => some update
  | 'd' => some delete
  | _ => none

theorem ofLetter?_eq_some {c : Char} {op : Operation} : ofLetter? c = some op ↔ c = op.letter := by
  constructor
  · intro h
    unfold ofLetter? at h
    split at h <;> cases h <;> rfl
  · rintro rfl
    cases op <;> rfl

theorem letter_inj {op op' : Operation} (h : op.letter = op'.letter) : op = op' :=
  Option.some.inj ((ofLetter?_eq_some.mpr rfl).symm.trans (ofLetter?_eq_some.mpr h))

end Operation

/-- A set of operations. -/
structure OperationSet where
  /-- Whether `create` belongs to it. -/
  create : Bool
  /-- Whether `read` belongs to it. -/
  read : Bool
  /-- Whether `update` belongs to it. -/
  update : Bool
  /-- Whether `delete` belongs to it. -/
  delete : Bool
  deriving DecidableEq, Repr, Inhabited

namespace OperationSet

/-- No operation. -/
def empty : OperationSet := ⟨false, false, false, false⟩

/-- Membership. -/
def allows (s : OperationSet) : Operation → Bool
  | .create => s.create
  | .read => s.read
  | .update => s.update
  | .delete => s.delete

/-- The set with one operation more. -/
def insert (s : OperationSet) : Operation → OperationSet
  | .create => { s with create := true }
  | .read => { s with read := true }
  | .update => { s with update := true }
  | .delete => { s with delete := true }

/-- Puts in the operation of every letter; no letter may be foreign. -/
def insertLetters (s : OperationSet) : List Char → Option OperationSet
  | [] => some s
  | c :: cs =>
    match Operation.ofLetter? c with
    | some op => (s.insert op).insertLetters cs
    | none => none

/-- Reads a run of letters, in any order and repeated or not. -/
def ofLetters? (letters : String) : Option OperationSet :=
  empty.insertLetters letters.toList

/-- The operations of the set in order. -/
def toList (s : OperationSet) : List Operation :=
  Operation.all.filter s.allows

/-- The letters of the set in order. -/
def letters (s : OperationSet) : String :=
  String.ofList (s.toList.map Operation.letter)

/-- The set as a number, one bit for each operation. -/
def bits (s : OperationSet) : Nat :=
  s.create.toNat + 2 * s.read.toNat + 4 * s.update.toNat + 8 * s.delete.toNat

/-- A set is its members. -/
theorem ext_allows {s t : OperationSet} (h : ∀ op, s.allows op = true ↔ t.allows op = true) :
    s = t := by
  have heq : ∀ op, s.allows op = t.allows op := fun op => Bool.eq_iff_iff.mpr (h op)
  obtain ⟨create, read, update, delete⟩ := s
  obtain rfl : create = t.create := heq .create
  obtain rfl : read = t.read := heq .read
  obtain rfl : update = t.update := heq .update
  obtain rfl : delete = t.delete := heq .delete
  rfl

theorem allows_insert (s : OperationSet) (op op' : Operation) :
    (s.insert op).allows op' = true ↔ op = op' ∨ s.allows op' = true := by
  cases op <;> cases op' <;> simp [insert, allows]

/-- Letters are read iff each is the letter of an operation, and what is read
    has these operations besides those that were there. -/
theorem insertLetters_eq_some {s t : OperationSet} {cs : List Char} :
    s.insertLetters cs = some t ↔ (∀ c ∈ cs, ∃ op : Operation, c = op.letter) ∧
      ∀ op, t.allows op = true ↔ s.allows op = true ∨ op.letter ∈ cs := by
  induction cs generalizing s with
  | nil =>
    simp only [insertLetters, Option.some.injEq, List.not_mem_nil, or_false]
    constructor
    · rintro rfl
      exact ⟨nofun, fun _ => Iff.rfl⟩
    · exact fun h => (ext_allows h.2).symm
  | cons c cs ih =>
    unfold insertLetters
    split
    next op hop =>
      -- the first letter is of `op`, so it is in the set from here on
      obtain rfl := Operation.ofLetter?_eq_some.mp hop
      have hfirst : ∀ op', op = op' ↔ op'.letter = op.letter :=
        fun op' => ⟨fun h => h ▸ rfl, fun h => (Operation.letter_inj h).symm⟩
      have hletter : ∃ op' : Operation, op.letter = op'.letter := ⟨op, rfl⟩
      have hmem : ∀ op', (s.insert op).allows op' = true ∨ op'.letter ∈ cs ↔
          s.allows op' = true ∨ op'.letter ∈ op.letter :: cs := by
        intro op'
        rw [allows_insert, List.mem_cons, ← hfirst, or_assoc, or_left_comm]
      rw [ih, List.forall_mem_cons, and_iff_right hletter]
      simp only [hmem]
    next hnone =>
      refine ⟨nofun, ?_⟩
      rintro ⟨hletters, -⟩
      obtain ⟨op, rfl⟩ := hletters c List.mem_cons_self
      rw [Operation.ofLetter?_eq_some.mpr rfl] at hnone
      cases hnone

/-- A run of letters is read iff each is the letter of an operation, and as the
    set of these. -/
theorem ofLetters?_eq_some {letters : String} {s : OperationSet} :
    ofLetters? letters = some s ↔ (∀ c ∈ letters.toList, ∃ op : Operation, c = op.letter) ∧
      ∀ op, s.allows op = true ↔ op.letter ∈ letters.toList := by
  have hempty : ∀ op, empty.allows op = true ↔ False := by
    intro op
    cases op <;> simp [empty, allows]
  simp only [ofLetters?, insertLetters_eq_some, hempty, false_or]

end OperationSet

/-- What a route can be asked to do. -/
inductive Action where
  | create
  /-- All records. -/
  | list
  /-- One record. -/
  | read
  | update
  | delete
  deriving DecidableEq, Repr, Inhabited

namespace Action

/-- All five, in the order in which endpoints are made. -/
def all : List Action := [create, list, read, update, delete]

/-- The position in that order. -/
def position : Action → Nat
  | create => 0
  | list => 1
  | read => 2
  | update => 3
  | delete => 4

/-- The code that a configuration writes. -/
def code : Action → String
  | create => "c"
  | list => "rA"
  | read => "r"
  | update => "u"
  | delete => "d"

/-- Reads a code. -/
def ofCode? : String → Option Action
  | "c" => some create
  | "rA" => some list
  | "r" => some read
  | "u" => some update
  | "d" => some delete
  | _ => none

theorem ofCode?_eq_some {code : String} {action : Action} :
    ofCode? code = some action ↔ code = action.code := by
  constructor
  · intro h
    unfold ofCode? at h
    split at h <;> cases h <;> rfl
  · rintro rfl
    cases action <;> rfl

theorem code_inj {a b : Action} (h : a.code = b.code) : a = b :=
  Option.some.inj ((ofCode?_eq_some.mpr rfl).symm.trans (ofCode?_eq_some.mpr h))

/-- The operation that decides which fields take part. -/
def operation : Action → Operation
  | create => .create
  | list | read => .read
  | update => .update
  | delete => .delete

/-- Whether the action is about one stored record. -/
def targetsOne : Action → Bool
  | read | update | delete => true
  | create | list => false

/-- Whether the action takes a request body. -/
def takesBody : Action → Bool
  | create | update => true
  | list | read | delete => false

end Action

/-- The HTTP methods of endpoints. -/
inductive Method where
  | get
  | post
  | put
  | delete
  deriving DecidableEq, Repr, Inhabited

namespace Method

/-- The method name. -/
def name : Method → String
  | get => "GET"
  | post => "POST"
  | put => "PUT"
  | delete => "DELETE"

/-- The method of an action. -/
def ofAction : Action → Method
  | .create => post
  | .list | .read => get
  | .update => put
  | .delete => delete

end Method

end RecordGate
