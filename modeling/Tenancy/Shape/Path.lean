/-!
# Paths

Where a value stands inside a document: the keys and positions on the way down to it.
-/

namespace Tenancy

inductive Segment where
  | key (name : String)
  | index (position : Nat)
  deriving DecidableEq, Repr

namespace Segment

def render : Segment → String
  | .key name => name
  | .index position => s!"[{position}]"

end Segment

/-- The steps from the root, outermost first. -/
structure Path where
  segments : List Segment
  deriving DecidableEq, Repr

namespace Path

def root : Path := ⟨[]⟩

def child (path : Path) (segment : Segment) : Path :=
  ⟨path.segments ++ [segment]⟩

def key (path : Path) (name : String) : Path :=
  path.child (.key name)

def index (path : Path) (position : Nat) : Path :=
  path.child (.index position)

/-- The place reached by going on from `path`. -/
def append (path rest : Path) : Path :=
  ⟨path.segments ++ rest.segments⟩

instance : Append Path := ⟨append⟩

def length (path : Path) : Nat :=
  path.segments.length

def isRoot (path : Path) : Bool :=
  path.segments.isEmpty

/-- The steps joined by points. -/
def render (path : Path) : String :=
  if path.isRoot then "(root)" else String.intercalate "." (path.segments.map Segment.render)

@[simp]
theorem segments_child (path : Path) (segment : Segment) :
    (path.child segment).segments = path.segments ++ [segment] := rfl

@[simp]
theorem segments_append (path rest : Path) :
    (path ++ rest).segments = path.segments ++ rest.segments := rfl

end Path

end Tenancy
