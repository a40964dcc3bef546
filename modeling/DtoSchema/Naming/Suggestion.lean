import DtoSchema.Binary64
import DtoSchema.Naming.EditDistance
import DtoSchema.Naming.Words

/-!
# Suggested names

For a name that is not declared, the declared names that resemble it are suggested.  Candidates are
ranked by similarity, and by name where they are equally similar.
-/

namespace DtoSchema.Naming

/-- The similarity of two texts: one minus their distance in relation to the longer one. -/
def textSimilarity (s t : Text) : Binary64 :=
  if s.isEmpty && t.isEmpty then .one
  else (Binary64.nearest (editDistance s t) (Nat.max s.length t.length)).complement

/-- The similarity of two names: the better one of the comparisons with and without the ending that
marks a data type. -/
def similarity (s t : Text) : Binary64 :=
  (textSimilarity (normalize s) (normalize t)).max
    (textSimilarity (normalizeStem s) (normalizeStem t))

/-- A name with its similarity to another one. -/
structure Candidate where
  /-- The name. -/
  name : Text
  /-- Its similarity, a number between zero and one. -/
  score : Binary64
  deriving DecidableEq, Repr

/-- The order of ranking: higher scores first, then the names in the order of their bytes. -/
def Candidate.ranksBefore (a b : Candidate) : Bool :=
  if a.score = b.score then (Text.compare a.name b.name).isLE
  else b.score.units < a.score.units

/-- The names other than `target`, ranked by their similarity to it. -/
def rank (target : Text) (names : List Text) : List Candidate :=
  ((names.filter (· != target)).map fun n => ⟨n, similarity target n⟩).mergeSort
    Candidate.ranksBefore

/-- The candidates whose score is at least `num / den`. -/
def atLeast (num den : Nat) (candidates : List Candidate) : List Candidate :=
  candidates.filter fun c => (Binary64.nearest num den).units ≤ c.score.units

/-- The suggestions for a name: at most three other names that are similar to it by three quarters
at least, the best first. -/
def suggest (target : Text) (names : List Text) : List Text :=
  ((atLeast 3 4 (rank target names)).take 3).map (·.name)

end DtoSchema.Naming
