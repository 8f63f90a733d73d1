/-
Series: the bars of one instrument and frequency, grouped by their time.

Groups are kept in ascending order of time. Only trades share a time; of other bars
the last one that came for a time is the only one there.
-/
import BarArchive.Market.Bar

namespace BarArchive

/-- Groups of bars, ascending by their time. -/
abbrev Series := List (Instant × List Bar)

namespace Series

/-- The group at an instant. -/
def find? (t : Instant) : Series → Option (List Bar)
  | [] => none
  | (u, g) :: rest => if u = t then some g else find? t rest

/-- The series with the group `g` at `t`, in place of what was there. -/
def put (t : Instant) (g : List Bar) : Series → Series
  | [] => [(t, g)]
  | (u, h) :: rest =>
    if t < u then (t, g) :: (u, h) :: rest
    else if t = u then (t, g) :: rest
    else (u, h) :: put t g rest

/-- The series with one more bar. -/
def push (f : Frequency) (s : Series) (b : Bar) : Series :=
  s.put b.time (if f = .tick then (s.find? b.time).getD [] ++ [b] else [b])

/-- Bars in any order, grouped. -/
def group (f : Frequency) (bars : List Bar) : Series := bars.foldl (push f) []

/-- All bars in order. -/
def bars (s : Series) : List Bar := s.flatMap (·.2)

/-- The groups from `start` to `stop`, both included. -/
def within (start stop : Instant) (s : Series) : Series :=
  s.filter fun e => start ≤ e.1 && e.1 ≤ stop

/-- The series with the groups of another one over its own. -/
def overlay (s fresh : Series) : Series := fresh.foldl (fun s e => s.put e.1 e.2) s

/-- The first and the last instant with bars. -/
def bounds? (s : Series) : Option (Instant × Instant) :=
  match s.head?, s.getLast? with
  | some a, some b => some (a.1, b.1)
  | _, _ => none

/-! ### What the operations do to the groups -/

theorem find?_put (t u : Instant) (g : List Bar) (s : Series) (h : s.Pairwise (·.1 < ·.1)) :
    find? u (put t g s) = if t = u then some g else find? u s := by
  induction s with
  | nil => simp [put, find?]
  | cons e s ih =>
    obtain ⟨v, k⟩ := e
    have hs := List.pairwise_cons.mp h
    by_cases hlt : t < v
    · by_cases htu : t = u
      · subst htu; simp [put, hlt, find?]
      · simp [put, hlt, find?, htu]
    · by_cases htv : t = v
      · subst htv
        by_cases htu : t = u
        · subst htu; simp [put, find?]
        · simp [put, find?, htu]
      · by_cases hvu : v = u
        · subst hvu; simp [put, hlt, htv, find?]
        · simp [put, hlt, htv, find?, hvu, ih hs.2]

end Series

end BarArchive
