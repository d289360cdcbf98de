import FramedLink.Link.Upper
import FramedLink.Port.Handler

/-! # The port table

The table shares a link among handlers, at most one to a port. Events go to every handler, in the
order of the ports; a data frame goes to the handler of the port that its metadata names, and is
counted and dropped if there is none.
-/

namespace FramedLink.Port

structure Entry (η : Type) where
  port : Nat
  description : Option String
  handler : η
  deriving DecidableEq, Repr

structure Table (η : Type) where
  /-- The entries, by increasing port. -/
  entries : List (Entry η) := []
  /-- The data frames that no handler took. -/
  unrouted : Nat := 0
  deriving DecidableEq, Repr

namespace Table

variable {η ω : Type}

/-! ## Entries -/

/-- The entries with another one at its place, instead of an earlier one for the same port. -/
def place (e : Entry η) : List (Entry η) → List (Entry η)
  | [] => [e]
  | first :: rest =>
    if e.port < first.port then e :: first :: rest
    else if e.port = first.port then e :: rest
    else first :: place e rest

/-- The table with a handler at a port, instead of an earlier one. -/
def insert (t : Table η) (e : Entry η) : Table η := { t with entries := place e t.entries }

def find? (t : Table η) (port : Nat) : Option (Entry η) := t.entries.find? (·.port = port)

def directory (t : Table η) : Directory := fun port => (t.find? port).bind (·.description)

def isRegistered (t : Table η) (port : Nat) : Bool := (t.find? port).isSome

theorem find?_place (e : Entry η) (entries : List (Entry η)) (port : Nat)
    (sorted : entries.Pairwise (·.port < ·.port)) :
    (place e entries).find? (·.port = port) =
      if e.port = port then some e else entries.find? (·.port = port) := by
  induction entries with
  | nil => by_cases h : e.port = port <;> simp [place, h]
  | cons first rest ih =>
    obtain ⟨least, sorted⟩ := List.pairwise_cons.mp sorted
    have absent : first.port = port → rest.find? (·.port = port) = none := fun h => by
      simp only [List.find?_eq_none, decide_eq_true_eq]
      intro other member same
      have := least other member
      omega
    unfold place
    split
    · by_cases h : e.port = port <;> simp [h, List.find?_cons]
    · split
      · next same =>
        by_cases h : e.port = port
        · simp [h]
        · have other : ¬ first.port = port := same ▸ h
          simp [h, other]
      · next other =>
        by_cases h : first.port = port
        · have distinct : ¬ e.port = port := fun same => other (same.trans h.symm)
          simp [h, distinct]
        · simp [h, ih sorted]

/-! ## The layer above the link -/

variable [Handler η ω]

def tellAll (directory : Directory) (event : Event) :
    List (Entry η) → Script ω (List (Entry η))
  | [] => .done []
  | e :: rest =>
    (Handler.onEvent directory e.handler event).bind fun handler =>
      (tellAll directory event rest).bind fun rest => .done ({ e with handler } :: rest)

def tell (t : Table η) (event : Event) : Script ω (Table η) :=
  (tellAll t.directory event t.entries).bind fun entries => .done { t with entries }

/-- Gives a data frame to the handler that its metadata names. -/
def route (t : Table η) (metadata : Nat) (payload : Bytes) : Script ω (Table η) :=
  let address := Address.unpack metadata
  match t.find? address.port with
  | none => .done { t with unrouted := t.unrouted + 1 }
  | some e =>
    (Handler.onSegment t.directory e.handler address payload).bind fun handler =>
      .done (t.insert { e with handler })

def upper : Upper (Table η) ω := ⟨tell, route⟩

/-- The ports with a handler and the frames dropped, as a text. -/
def summary {η : Type} (t : Table η) : String :=
  "PortTable \x7b registered: [" ++ String.intercalate ", " (t.entries.map (toString ·.port)) ++
    "], unrouted: " ++ toString t.unrouted ++ " \x7d"

end Table

end FramedLink.Port
