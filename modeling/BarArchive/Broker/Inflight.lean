/-
Requests that were accepted and not answered yet.

A request whose gaps are being filled has a part for each of them. The first part that
fails takes its request out of the table; the others are remembered as aborted until
they come back, so that they can be told from parts of no known request.
-/
import BarArchive.Market.Request
import BarArchive.Table

namespace BarArchive

/-- A request and the bars that came for it and are not stored. -/
structure Waiting where
  request : Request
  stash : List Bar := []
deriving DecidableEq

/-- The requests that wait for an answer, and the parts that wait for their bars. -/
structure Inflight where
  waiting : Table AssignedId Waiting := .empty
  parts : Table AssignedId (List AssignedId) := .empty
  aborted : Table AssignedId (List AssignedId) := .empty

namespace Inflight

/-- Files a request. -/
def insertRequest (t : Inflight) (id : AssignedId) (r : Request) : Inflight :=
  { t with waiting := t.waiting.insert id { request := r } }

/-- Files the parts of a request. -/
def insertParts (t : Inflight) (parent : AssignedId) (children : List AssignedId) : Inflight :=
  { t with parts := t.parts.insert parent children }

/-- Whether a request waits for an answer. -/
def contains (t : Inflight) (id : AssignedId) : Bool := t.waiting.contains id

/-- Takes a request out. -/
def take? (t : Inflight) (id : AssignedId) : Option (Waiting × Inflight) :=
  (t.waiting.find? id).map fun w => (w, { t with waiting := t.waiting.erase id })

/-- `children` without `child`. -/
def without (child : AssignedId) (children : List AssignedId) : List AssignedId :=
  children.filter (· ≠ child)

/-- Takes a part of a failed request out; nothing if the request has not failed. -/
def retire? (t : Inflight) (parent child : AssignedId) : Option Inflight :=
  (t.aborted.find? parent).map fun children =>
    match without child children with
    | [] => { t with aborted := t.aborted.erase parent }
    | rest => { t with aborted := t.aborted.insert parent rest }

/-- Takes a request out because a part of it failed; its other parts are aborted. -/
def abort? (t : Inflight) (parent failed : AssignedId) : Option (Waiting × Inflight) :=
  (t.take? parent).map fun (w, t) =>
    match t.parts.find? parent with
    | none => (w, t)
    | some children =>
      let t := { t with parts := t.parts.erase parent }
      match without failed children with
      | [] => (w, t)
      | rest => (w, { t with aborted := t.aborted.insert parent rest })

/-- Adds bars to the stash of a request. -/
def addToStash (t : Inflight) (parent : AssignedId) (bars : List Bar) : Inflight :=
  { t with waiting := t.waiting.modify parent fun w => { w with stash := w.stash ++ bars } }

/-- Takes a part out; with the last one the request comes out too. -/
def complete (t : Inflight) (parent child : AssignedId) : Option Waiting × Inflight :=
  match without child ((t.parts.find? parent).getD []) with
  | [] =>
    let t := { t with parts := t.parts.erase parent }
    match t.take? parent with
    | some (w, t) => (some w, t)
    | none => (none, t)
  | rest => (none, { t with parts := t.parts.insert parent rest })

/-- The number of requests that wait for an answer. -/
def size (t : Inflight) : Nat := t.waiting.size

/-- The number of parts that wait for their bars. -/
def outstanding (t : Inflight) : Nat :=
  (t.parts.values ++ t.aborted.values).foldl (fun n children => n + children.length) 0

end Inflight

end BarArchive
