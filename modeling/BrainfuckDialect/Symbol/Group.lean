/-!
# Synonym groups

A synonym group is a canonical character with the synonyms that are mapped to it.
Flattening a list of groups gives its bindings, in the order in which a table is built
from them: group by group, and in each group the canonical first, then its synonyms as
declared.
-/

namespace BrainfuckDialect

/-- A source character and the character it is mapped to. -/
structure Binding where
  source : Char
  target : Char
  deriving DecidableEq, Repr

/-- A canonical character and the synonyms that are mapped to it. -/
structure SynonymGroup where
  canonical : Char
  synonyms : List Char
  deriving DecidableEq, Repr

namespace SynonymGroup

/-- The characters a group declares: its canonical, then its synonyms. -/
def members (g : SynonymGroup) : List Char :=
  g.canonical :: g.synonyms

/-- Each member of the group bound to the group's canonical, canonical first. -/
def bindings (g : SynonymGroup) : List Binding :=
  g.members.map (fun s => ⟨s, g.canonical⟩)

/-- The bindings of a list of groups, group by group. -/
def flatten (gs : List SynonymGroup) : List Binding :=
  gs.flatMap bindings

@[simp] theorem flatten_nil : flatten [] = [] := rfl

@[simp] theorem flatten_cons (g : SynonymGroup) (gs : List SynonymGroup) :
    flatten (g :: gs) = g.bindings ++ flatten gs := by
  simp [flatten]

theorem flatten_append (gs hs : List SynonymGroup) :
    flatten (gs ++ hs) = flatten gs ++ flatten hs := by
  simp [flatten]

end SynonymGroup
end BrainfuckDialect
