/-
Keys do not interfere.

Take a run and leave out of it every move for another key than one of interest: requests on
the other keys, the work that they leave, and bars from elsewhere for them. What is left is a
run again. It passes through the same values of the series of that key, and each request on it
is accepted or turned down as before and gets the same answer. Only the numbers are others,
because the requests that were left out took some of them.

A move for the key is made in both runs, in brokers that are alike for it. A move for another
key is made in the first run only, and changes nothing there that the second one has.
-/
import BarArchive.Proofs.Dispatch
import BarArchive.Proofs.Numbers
import BarArchive.Proofs.Renaming
import Mathlib.Data.List.Flatten
import Mathlib.Data.List.Nodup
import Mathlib.Data.List.Pairwise

namespace BarArchive

/-! ### Numbers for numbers -/

/-- Different numbers can be renamed to any other ones that are as many and differ too. -/
theorem exists_renaming : ∀ {l l' : List AssignedId}, l.Nodup → l'.Nodup → l.length = l'.length →
    ∃ ρ : Equiv.Perm AssignedId, l.map ρ = l' := by
  intro l
  induction l with
  | nil =>
      intro l' _ _ hlength
      exact ⟨1, (List.length_eq_zero_iff.mp hlength.symm).symm⟩
  | cons c l ih =>
      intro l' hl hl' hlength
      cases l' with
      | nil => cases hlength
      | cons d l' =>
          obtain ⟨hc, hl⟩ := List.nodup_cons.mp hl
          obtain ⟨hd, hl'⟩ := List.nodup_cons.mp hl'
          obtain ⟨ρ, rfl⟩ := ih hl hl' (Nat.succ.inj hlength)
          -- the first number goes where it has to, and the others stay where they are
          refine ⟨ρ.trans (Equiv.swap (ρ c) d), List.cons_eq_cons.mpr ⟨?_, ?_⟩⟩
          · exact Equiv.swap_apply_left _ _
          · refine List.map_congr_left fun x hx => Equiv.swap_apply_of_ne_of_ne ?_ ?_
            · exact fun heq => hc (ρ.injective heq ▸ hx)
            · exact fun heq => hd (heq ▸ List.mem_map_of_mem hx)

/-- Numbers that are renamed to the next ones of an allocator are so from the first one on. -/
theorem Allocator.renamed_append {ρ : Equiv.Perm AssignedId} {ids : Allocator}
    {l l' : List AssignedId} (h : (l ++ l').map ρ = (ids.take (l ++ l').length).1) :
    l.map ρ = (ids.take l.length).1 ∧ l'.map ρ = ((ids.take l.length).2.take l'.length).1 := by
  rw [List.map_append, List.length_append, Allocator.take_add] at h
  exact List.append_inj h (by rw [List.length_map, Allocator.length_take])

/-! ### What is left out -/

/-- A request that work is left for waits as it was filed, if it waits. -/
theorem Life.waiting_request {o : Bool} {r : Request} {a : Accepted} {v : View} {x : Waiting}
    (h : Life o r a v) (hjobs : v.jobs ≠ []) (hx : v.entry.waiting = some x) : x.request = r := by
  cases h with
  | serving => exact congrArg Waiting.request (Option.some.inj hx).symm
  | fetching => exact congrArg Waiting.request (Option.some.inj hx).symm
  | filling => exact congrArg Waiting.request (Option.some.inj hx).symm
  | failed => cases hx
  | closed => exact absurd rfl hjobs
  | stranded => exact absurd rfl hjobs

namespace World

/-- The accepted requests on a key, the latest first. -/
def acceptedOn (w : World) (k : SeriesKey) : List (Request × Accepted) :=
  w.accepted.filter fun e => e.1.key? = some k

/-- The numbers that were given out for requests on a key, in their order. -/
def issuedOn (w : World) (k : SeriesKey) : List AssignedId :=
  (w.acceptedOn k).reverse.flatMap fun e => e.2.ids

/-- Whether a move is for a key: it belongs to a request or to bars for that key. What the store
refuses, and which sources are there, concerns every key. -/
def concerns (w : World) (k : SeriesKey) : Move → Bool
  | .submit _ r => r.key? = some k
  | .fetched r _ => r.key? = some k
  | .served id => (w.acceptedOn k).any fun e => e.2.assignedId = id
  | .added a => a.key? = some k
  | .refused _ => true
  | .connected _ _ => true

/-- A run without the moves for other keys, and under other numbers. -/
def erased (w : World) (k : SeriesKey) (ρ : Equiv.Perm AssignedId) (moves : List Move) :
    List Move :=
  (moves.filter (w.concerns k)).map (Move.rename ρ)

variable {k : SeriesKey} {ρ : Equiv.Perm AssignedId} {ids : Allocator} {u u' v w : World} {m : Move}

theorem mem_acceptedOn {e : Request × Accepted} :
    e ∈ w.acceptedOn k ↔ e ∈ w.accepted ∧ e.1.key? = some k := by
  unfold acceptedOn
  rw [List.mem_filter, decide_eq_true_eq]

/-- Requests that were accepted have different numbers. -/
theorem accepted_unique (hids : w.issued.Nodup) {e e' : Request × Accepted} (he : e ∈ w.accepted)
    (he' : e' ∈ w.accepted) (h : e.2.assignedId = e'.2.assignedId) : e = e' := by
  by_contra hne
  have hsymm : Std.Symm (Function.onFun List.Disjoint fun x : Request × Accepted => x.2.ids) :=
    ⟨fun _ _ hdisjoint _ hleft hright => hdisjoint hright hleft⟩
  have hdisjoint := (List.nodup_flatMap.mp hids).2.forall he he' hne
  exact hdisjoint List.mem_cons_self (h ▸ List.mem_cons_self)

theorem issuedOn_subperm (w : World) (k : SeriesKey) : (w.issuedOn k).Subperm w.issued :=
  ⟨(w.acceptedOn k).flatMap fun e => e.2.ids, (List.reverse_perm _).symm.flatMap_right _,
    List.filter_sublist.flatMap _⟩

theorem nodup_issuedOn (hids : w.issued.Nodup) (k : SeriesKey) : (w.issuedOn k).Nodup := by
  obtain ⟨l, hperm, hsub⟩ := w.issuedOn_subperm k
  exact hperm.nodup_iff.mp (hsub.nodup hids)

theorem concerns_served (hids : w.issued.Nodup) {e : Request × Accepted} (he : e ∈ w.accepted) :
    w.concerns k (.served e.2.assignedId) = true ↔ e.1.key? = some k := by
  unfold concerns
  rw [List.any_eq_true]
  constructor
  · rintro ⟨e', he', hid⟩
    obtain ⟨hmem, hkey⟩ := mem_acceptedOn.mp he'
    obtain rfl := accepted_unique hids hmem he (by simpa using hid)
    exact hkey
  · exact fun hkey => ⟨e, mem_acceptedOn.mpr ⟨he, hkey⟩, by simp⟩

theorem acceptedOn_enroll (w : World) {r : Request} (a : Accepted) (b : Broker)
    (hkey : r.key? = some k) :
    (w.enroll r a b).acceptedOn k = (r.filed a.assignedId, a) :: w.acceptedOn k :=
  List.filter_cons_of_pos (decide_eq_true hkey)

theorem issuedOn_enroll (w : World) {r : Request} (a : Accepted) (b : Broker)
    (hkey : r.key? = some k) : (w.enroll r a b).issuedOn k = w.issuedOn k ++ a.ids := by
  unfold issuedOn
  rw [w.acceptedOn_enroll a b hkey, List.reverse_cons, List.flatMap_append, List.flatMap_singleton]

/-- Whether a move is for a key is known when it is made, and what comes later does not matter. -/
theorem concerns_eq {later : List Move} (horder : u.Orderly) (hstep : u.step? m = some u')
    (hlater : u'.run? later = some w) (hids : w.issued.Nodup) : w.concerns k m = u.concerns k m := by
  have hids' : u.issued.Nodup := nodup_issued_of_step hstep (nodup_issued_of_run hlater hids)
  cases makes_of_step hstep with
  | accepted => rfl
  | declined => rfl
  | fetched => rfl
  | @served id hmem =>
      obtain ⟨e, he, howner⟩ := horder.owned _ hmem
      obtain rfl : id = e.2.assignedId := Option.some.inj howner
      have he' : e ∈ w.accepted := (accepted_suffix hlater).subset (accepted_step hstep he)
      rw [Bool.eq_iff_iff, concerns_served hids he', concerns_served hids' he]
  | added => rfl
  | refused => rfl
  | connected => rfl

/-! ### Moves for other keys -/

theorem registry_of_submit {b b' : Broker} {now : Instant} {r : Request} {a : Accepted}
    (h : b.submit now r = .ok (a, b')) : b'.registry = b.registry := by
  cases Broker.submit_cases h with
  | stored => rfl
  | external => rfl
  | split => rfl

/-- Nothing but a source that comes or goes changes the sources. -/
theorem registry_step (hstep : u.step? m = some u') (hm : ∀ slot up, m ≠ .connected slot up) :
    u'.broker.registry = u.broker.registry := by
  cases makes_of_step hstep with
  | accepted hsubmit => exact registry_of_submit hsubmit
  | declined => rfl
  | fetched => rw [broker_after, (Broker.steady_deliver _ _ _).registry]
  | served => rw [broker_after, (Broker.quiet_serve _ _).registry]
  | added =>
      show (u.broker.addData _).1.registry = _
      rw [Broker.addData_fst]
  | refused => rfl
  | connected => exact absurd rfl (hm _ _)

/-- A fetch for a request is for the series of the request. -/
theorem Sends.key_of_job (h : u.Sends) {e : Request × Accepted} {q : Request} (he : e ∈ u.accepted)
    (hjob : .fetch q ∈ u.jobs e.2.assignedId) : q.key? = e.1.key? := by
  have hsent : q ∈ u.sent e.2.assignedId :=
    List.mem_append_right _ (List.mem_filterMap.mpr ⟨_, hjob, rfl⟩)
  exact (h.owned e he q ((h.subperm he).subset hsent)).2.2

/-- A move for another key leaves the requests on the key alone, -/
theorem acceptedOn_skipped (hstep : u.step? m = some u') (hm : u.concerns k m = false) :
    u'.acceptedOn k = u.acceptedOn k := by
  rcases step_cases hstep with ⟨now, r, a, b, rfl, -, rfl⟩ | ⟨haccepted, -⟩
  · have hkey : r.key? ≠ some k := by simpa [concerns] using hm
    exact List.filter_cons_of_neg fun h => hkey (of_decide_eq_true h)
  · unfold acceptedOn
    rw [haccepted]

/-- and all that is known about them, -/
theorem view_skipped (horder : u.Orderly) (hsends : u.Sends) (hstep : u.step? m = some u')
    (hids : u'.issued.Nodup) (hm : u.concerns k m = false) {e : Request × Accepted}
    (he : e ∈ u.acceptedOn k) : u'.view e.2.assignedId = u.view e.2.assignedId := by
  obtain ⟨hmem, hkey⟩ := mem_acceptedOn.mp he
  rcases view_step horder hstep hids hmem with hview | ⟨rfl, -, -⟩ | ⟨q, result, rfl, hjob, -⟩
  · exact hview
  · rw [(concerns_served (nodup_issued_of_step hstep hids) hmem).mpr hkey] at hm
    cases hm
  · exact absurd ((hsends.key_of_job hmem hjob).trans hkey) (by simpa [concerns] using hm)

/-- and the series of the key. -/
theorem cache_skipped (horder : u.Orderly) (hstep : u.step? m = some u')
    (hm : u.concerns k m = false) : Cache.Agree k u.broker.cache u'.broker.cache := by
  by_cases hadded : ∃ a, m = .added a
  · obtain ⟨a, rfl⟩ := hadded
    have hkey : a.key? ≠ some k := by simpa [concerns] using hm
    cases hstep
    exact ⟨Broker.refusals_addData _ _, Broker.get_addData_other fun h => hkey h.1⟩
  have hcache := cache_step horder hstep fun a ha => hadded ⟨a, ha⟩
  generalize u'.broker.cache = cache at hcache ⊢
  cases hcache with
  | @written r bars =>
      have hkey : r.key? ≠ some k := by simpa [concerns] using hm
      exact ⟨Broker.refusals_cacheAfter _ _ _, Broker.get_cacheAfter_other hkey bars⟩
  | late => exact ⟨rfl, rfl⟩
  | failed => exact ⟨rfl, rfl⟩
  | submitted => exact ⟨rfl, rfl⟩
  | served => exact ⟨rfl, rfl⟩
  | refused => cases hm
  | connected => exact ⟨rfl, rfl⟩

/-! ### Moves for the key -/

/-- The second world has of the first one what is for the key, under other numbers. -/
structure Echoes (k : SeriesKey) (ρ : Equiv.Perm AssignedId) (ids : Allocator) (u v : World) :
    Prop where
  cache : Cache.Agree k u.broker.cache v.broker.cache
  registry : v.broker.registry = u.broker.registry
  ids : v.broker.ids = (ids.take (u.issuedOn k).length).2
  accepted : v.accepted = (u.acceptedOn k).map fun e => (e.1.rename ρ, e.2.rename ρ)
  views : ∀ e ∈ u.acceptedOn k, v.view (ρ e.2.assignedId) = (u.view e.2.assignedId).rename ρ

theorem echoes_start (k : SeriesKey) (ρ : Equiv.Perm AssignedId) (cache : Cache) (ids : Allocator)
    (registry : Registry) : Echoes k ρ ids (start cache ids registry) (start cache ids registry) where
  cache := ⟨rfl, rfl⟩
  registry := rfl
  ids := rfl
  accepted := rfl
  views _ he := nomatch he

namespace Echoes

/-- A move for another key is not missed. -/
theorem skip (h : Echoes k ρ ids u v) (horder : u.Orderly) (hsends : u.Sends)
    (hstep : u.step? m = some u') (hids : u'.issued.Nodup) (hm : u.concerns k m = false) :
    Echoes k ρ ids u' v := by
  have hcache := cache_skipped horder hstep hm
  have hregistry := registry_step hstep fun slot up heq => by
    rw [heq] at hm
    cases hm
  have haccepted := acceptedOn_skipped hstep hm
  refine ⟨⟨h.cache.refusals.trans hcache.refusals.symm, h.cache.series.trans hcache.series.symm⟩,
    h.registry.trans hregistry.symm, ?_, ?_, fun e he => ?_⟩
  · rw [issuedOn, haccepted]
    exact h.ids
  · rw [haccepted]
    exact h.accepted
  · rw [haccepted] at he
    rw [view_skipped horder hsends hstep hids hm he]
    exact h.views e he

theorem mem_accepted (h : Echoes k ρ ids u v) {e : Request × Accepted} (he : e ∈ u.acceptedOn k) :
    (e.1.rename ρ, e.2.rename ρ) ∈ v.accepted := by
  rw [h.accepted]
  exact List.mem_map_of_mem he

/-- Numbers that differ in the first world differ in the second one. -/
theorem nodup_issued (h : Echoes k ρ ids u v) (hids : u.issued.Nodup) : v.issued.Nodup := by
  have heq : v.issued = ((u.acceptedOn k).flatMap fun e => e.2.ids).map ρ := by
    unfold issued
    rw [h.accepted, List.flatMap_map, List.map_flatMap]
    simp only [Accepted.ids_rename]
  rw [heq]
  exact (List.Nodup.sublist (List.filter_sublist.flatMap _) hids).map ρ.injective

/-- A number that is new in the first world is new in the second one. -/
theorem not_mem_acceptedIds (h : Echoes k ρ ids u v) {p : AssignedId} (hp : p ∉ u.acceptedIds) :
    ρ p ∉ v.acceptedIds := by
  unfold acceptedIds
  rw [h.accepted, List.map_map]
  intro hmem
  obtain ⟨e, he, heq⟩ := List.mem_map.mp hmem
  exact hp (List.mem_map.mpr ⟨e, (mem_acceptedOn.mp he).1, ρ.injective heq⟩)

/-- A request on the key is turned down in both worlds, or accepted in both. -/
theorem submit {now : Instant} {r : Request} (h : Echoes k ρ ids u v) (horder : u.Orderly)
    (horder' : v.Orderly) (hkey : r.key? = some k) (hstep : u.step? (.submit now r) = some u')
    (hids : u'.issued.Nodup) (hρ : (u'.issuedOn k).map ρ = (ids.take (u'.issuedOn k).length).1) :
    ∃ v', v.step? (.submit now r) = some v' ∧ Echoes k ρ ids u' v' := by
  rcases Broker.submit_rename (ρ := ρ) now h.cache h.registry hkey with
    ⟨e, herror, herror'⟩ | ⟨n, a, b, a', c, hsubmit, hsubmit', htaken, htaken', hrename⟩
  · simp only [step?, herror, Option.some.injEq] at hstep
    exact ⟨v, by simp only [step?, herror'], hstep ▸ h⟩
  rw [step_enroll hsubmit] at hstep
  obtain rfl := Option.some.inj hstep
  have hon := u.acceptedOn_enroll a b hkey
  have hissued := u.issuedOn_enroll a b hkey
  -- the new numbers in the one world are renamed to those in the other one
  have hlength : a.ids.length = n := by
    rw [show a.ids = (u.broker.ids.take n).1 from congrArg Prod.fst htaken, Allocator.length_take]
  rw [hissued] at hρ
  have hnumbers : a.ids.map ρ = a'.ids := by
    rw [(Allocator.renamed_append hρ).2, hlength, ← h.ids, ← htaken']
  have hnew := World.not_mem_acceptedIds hids
  have hblank := horder.blank _ hnew
  have hblank' := horder'.blank _ (h.not_mem_acceptedIds hnew)
  have hview : v.view (ρ a.assignedId) = (u.view a.assignedId).rename ρ := by
    rw [hblank, hblank']
    rfl
  obtain ⟨rfl, halike⟩ :=
    hrename hnumbers (Inflight.alike_iff.mpr (congrArg View.entry hview))
  refine ⟨_, step_enroll hsubmit', ?_, ?_, ?_, ?_, ?_⟩
  · show Cache.Agree k b.cache c.cache
    rw [cache_of_submit hsubmit, cache_of_submit hsubmit']
    exact h.cache
  · show c.registry = b.registry
    rw [registry_of_submit hsubmit, registry_of_submit hsubmit', h.registry]
  · show c.ids = _
    rw [hissued, List.length_append, hlength, Allocator.take_add, ← h.ids, ← htaken']
  · rw [hon, List.map_cons, ← h.accepted]
    rfl
  · rw [hon]
    refine List.forall_mem_cons.mpr ⟨?_, fun e he => ?_⟩
    · rw [view_enroll_self hsubmit hblank]
      refine (view_enroll_self hsubmit' hblank').trans ?_
      rw [Accepted.rename, Inflight.alike_iff.mp halike, Work.jobs_rename]
      rfl
    · have hne : e.2.assignedId ≠ a.assignedId := fun heq =>
        hnew (List.mem_map.mpr ⟨e, (mem_acceptedOn.mp he).1, heq⟩)
      rw [view_enroll_other hsubmit hne,
        view_enroll_other hsubmit' fun heq => hne (ρ.injective heq)]
      exact h.views e he

/-- The broker is alike in both worlds for each request on the key. -/
theorem alike (h : Echoes k ρ ids u v) {e : Request × Accepted} (he : e ∈ u.acceptedOn k) :
    Broker.Alike k ρ e.2.assignedId u.broker v.broker :=
  ⟨Inflight.alike_iff.mpr (congrArg View.entry (h.views e he)), h.cache⟩

/-- Work for a request on the key that is done in both worlds, by steps that are alike. -/
theorem done {e : Request × Accepted} {j : Job}
    {fetched : Option (Request × Except MarketError (List Bar))} {s t : Broker × Outcome}
    (h : Echoes k ρ ids u v) (he : e ∈ u.acceptedOn k) (howner : j.owner? = some e.2.assignedId)
    (hfetched : ∀ f ∈ fetched, f.1.owner? = some e.2.assignedId)
    (hlocal : Local e.2.assignedId u.broker s) (hlocal' : Local (ρ e.2.assignedId) v.broker t)
    (hsteady : Broker.Steady u.broker s.1) (hsteady' : Broker.Steady v.broker t.1)
    (hsteps : StepsAlike k ρ e.2.assignedId s t) :
    Echoes k ρ ids ((u.take j fetched).after (some e.2.assignedId) s)
      ((v.take (j.rename ρ) (fetched.map (renamedFetch ρ))).after (some (ρ e.2.assignedId)) t) := by
  have howner' : (j.rename ρ).owner? = some (ρ e.2.assignedId) := by
    cases j with
    | fetch q => exact (Request.owner?_rename q).trans (congrArg (Option.map ρ) howner)
    | serve id => exact congrArg (Option.map ρ) howner
  have hfetched' : ∀ f ∈ fetched.map (renamedFetch ρ), f.1.owner? = some (ρ e.2.assignedId) := by
    intro f hf
    obtain ⟨f', hf', rfl⟩ := Option.map_eq_some_iff.mp hf
    exact (Request.owner?_rename f'.1).trans (congrArg (Option.map ρ) (hfetched f' hf'))
  have hon : ((u.take j fetched).after (some e.2.assignedId) s).acceptedOn k = u.acceptedOn k := by
    unfold acceptedOn
    rw [accepted_after]
    rfl
  refine ⟨?_, ?_, ?_, ?_, fun e' he' => ?_⟩
  · rw [broker_after, broker_after]
    exact hsteps.broker.cache
  · rw [broker_after, broker_after, hsteady.registry, hsteady'.registry]
    exact h.registry
  · rw [broker_after, hsteady'.ids, issuedOn, hon]
    exact h.ids
  · rw [hon, accepted_after]
    exact h.accepted
  · rw [hon] at he'
    by_cases hid : e'.2.assignedId = e.2.assignedId
    · rw [hid, view_done_self hfetched, view_done_self hfetched', h.views e he]
      exact View.after_rename hsteps _ _ _
    · rw [view_done_other hlocal howner hfetched hid,
        view_done_other hlocal' howner' hfetched' fun heq => hid (ρ.injective heq)]
      exact h.views e' he'

/-- What is left to do for a request on the key is left to do in both worlds. -/
theorem mem_pending {e : Request × Accepted} {j : Job} (h : Echoes k ρ ids u v)
    (he : e ∈ u.acceptedOn k) (hjob : j ∈ u.jobs e.2.assignedId) :
    j.rename ρ ∈ v.jobs (ρ e.2.assignedId) := by
  have hjobs : v.jobs (ρ e.2.assignedId) = (u.jobs e.2.assignedId).map (Job.rename ρ) :=
    congrArg View.jobs (h.views e he)
  rw [hjobs]
  exact List.mem_map_of_mem hjob

/-- A request on the key that work is left for waits as a request on the key. -/
theorem waiting_key {e : Request × Accepted} {j : Job} (horder : u.Orderly)
    (he : e ∈ u.acceptedOn k) (hjob : j ∈ u.jobs e.2.assignedId) :
    ∀ x, u.broker.inflight.waiting.find? e.2.assignedId = some x → x.request.key? = some k := by
  obtain ⟨hmem, hkey⟩ := mem_acceptedOn.mp he
  intro x hx
  rw [(horder.life e hmem).waiting_request (List.ne_nil_of_mem hjob) hx]
  exact hkey

/-- A source answers a fetch for the key in both worlds. -/
theorem fetched {q : Request} {result : Except MarketError (List Bar)} (h : Echoes k ρ ids u v)
    (horder : u.Orderly) (hsends : u.Sends) (horder' : v.Orderly) (hkey : q.key? = some k)
    (hstep : u.step? (.fetched q result) = some u') :
    ∃ v', v.step? (.fetched (q.rename ρ) result) = some v' ∧ Echoes k ρ ids u' v' := by
  cases makes_of_step hstep with
  | fetched hmem =>
      obtain ⟨hid, e, hacc, howner, -⟩ := horder.fetch_owned hmem
      have hjob := mem_jobs hmem howner
      have he : e ∈ u.acceptedOn k :=
        mem_acceptedOn.mpr ⟨hacc, (hsends.key_of_job hacc hjob).symm.trans hkey⟩
      have hjob' := h.mem_pending he hjob
      have hmem' : .fetch (q.rename ρ) ∈ v.pending := (List.mem_filter.mp hjob').1
      have howner' : (q.rename ρ).owner? = some (ρ e.2.assignedId) :=
        (Request.owner?_rename q).trans (congrArg (Option.map ρ) howner)
      refine ⟨_, if_pos hmem', ?_⟩
      rw [howner, howner']
      exact h.done he howner (by simp [howner])
        ((horder.life e hacc).fetched rfl hjob).1
        ((horder'.life _ (h.mem_accepted he)).fetched rfl hjob').1
        (Broker.steady_deliver _ _ _) (Broker.steady_deliver _ _ _)
        ((h.alike he).deliver hkey howner hid (waiting_key horder he hjob) result)

/-- A request on the key is answered from the store in both worlds. -/
theorem served {id : AssignedId} (h : Echoes k ρ ids u v) (horder : u.Orderly)
    (horder' : v.Orderly) (hids : u.issued.Nodup) (hm : u.concerns k (.served id) = true)
    (hstep : u.step? (.served id) = some u') :
    ∃ v', v.step? (.served (ρ id)) = some v' ∧ Echoes k ρ ids u' v' := by
  cases makes_of_step hstep with
  | served hmem =>
      obtain ⟨e, hacc, howner⟩ := horder.owned _ hmem
      obtain rfl : id = e.2.assignedId := Option.some.inj howner
      have hjob := mem_jobs hmem howner
      have he : e ∈ u.acceptedOn k :=
        mem_acceptedOn.mpr ⟨hacc, (concerns_served hids hacc).mp hm⟩
      have hjob' := h.mem_pending he hjob
      have hmem' : .serve (ρ e.2.assignedId) ∈ v.pending := (List.mem_filter.mp hjob').1
      refine ⟨_, if_pos hmem', ?_⟩
      exact h.done he howner (by simp) ((horder.life e hacc).served rfl hjob).1
        ((horder'.life _ (h.mem_accepted he)).served rfl hjob').1
        (Broker.quiet_serve _ _).steady (Broker.quiet_serve _ _).steady
        ((h.alike he).serve (waiting_key horder he hjob))

/-- Bars from elsewhere for the key come in both worlds. -/
theorem added {a : Addition} (h : Echoes k ρ ids u v) (hkey : a.key? = some k)
    (hstep : u.step? (.added a) = some u') :
    ∃ v', v.step? (.added a) = some v' ∧ Echoes k ρ ids u' v' := by
  have hcache := (Broker.addData_agree h.cache hkey).2
  obtain ⟨v', hstep'⟩ : ∃ v', v.step? (.added a) = some v' := ⟨_, rfl⟩
  refine ⟨v', hstep', ?_⟩
  cases makes_of_step hstep with
  | added houtcome =>
      cases makes_of_step hstep' with
      | added houtcome' =>
          have hfst := Broker.addData_fst u.broker a
          have hfst' := Broker.addData_fst v.broker a
          refine ⟨hcache, ?_, ?_, h.accepted, fun e he => ?_⟩
          · show (v.broker.addData a).1.registry = (u.broker.addData a).1.registry
            rw [hfst, hfst']
            exact h.registry
          · show (v.broker.addData a).1.ids = _
            rw [hfst']
            exact h.ids
          · rw [view_unanswered (by rw [hfst]) houtcome,
              view_unanswered (by rw [hfst']) houtcome']
            exact h.views e he

/-- A move for the key can be made in both worlds. -/
theorem mirror (h : Echoes k ρ ids u v) (horder : u.Orderly) (hsends : u.Sends)
    (horder' : v.Orderly) (hstep : u.step? m = some u') (hids : u'.issued.Nodup)
    (hρ : (u'.issuedOn k).map ρ = (ids.take (u'.issuedOn k).length).1)
    (hm : u.concerns k m = true) :
    ∃ v', v.step? (m.rename ρ) = some v' ∧ Echoes k ρ ids u' v' := by
  cases m with
  | submit now r => exact h.submit horder horder' (of_decide_eq_true hm) hstep hids hρ
  | fetched q result => exact h.fetched horder hsends horder' (of_decide_eq_true hm) hstep
  | served id => exact h.served horder horder' (nodup_issued_of_step hstep hids) hm hstep
  | added a => exact h.added (of_decide_eq_true hm) hstep
  | refused refusals =>
      cases hstep
      exact ⟨_, rfl, ⟨rfl, h.cache.series⟩, h.registry, h.ids, h.accepted, h.views⟩
  | connected slot up =>
      cases hstep
      refine ⟨_, rfl, h.cache, ?_, h.ids, h.accepted, h.views⟩
      show v.broker.registry.setConnected slot up = _
      rw [h.registry]

/-- A move of the one run is made in the other one too if it is for the key, and else left out. -/
theorem step (h : Echoes k ρ ids u v) (horder : u.Orderly) (hsends : u.Sends)
    (horder' : v.Orderly) (hstep : u.step? m = some u') (hids : u'.issued.Nodup)
    (hρ : (u'.issuedOn k).map ρ = (ids.take (u'.issuedOn k).length).1)
    (hm : w.concerns k m = u.concerns k m) :
    ∃ v', v.run? (w.erased k ρ [m]) = some v' ∧ Echoes k ρ ids u' v' := by
  cases hu : u.concerns k m with
  | false =>
      have herased : w.erased k ρ [m] = [] := by simp [erased, hm, hu]
      exact ⟨v, by rw [herased]; rfl, h.skip horder hsends hstep hids hu⟩
  | true =>
      have herased : w.erased k ρ [m] = [m.rename ρ] := by simp [erased, hm, hu]
      obtain ⟨v', hstep', h'⟩ := h.mirror horder hsends horder' hstep hids hρ hu
      exact ⟨v', by rw [herased]; exact run?_cons.mpr ⟨v', hstep', rfl⟩, h'⟩

end Echoes

/-- The numbers given out for requests on a key before are the first ones later. -/
theorem issuedOn_prefix {moves : List Move} (hrun : u.run? moves = some w) (k : SeriesKey) :
    u.issuedOn k <+: w.issuedOn k := by
  obtain ⟨later, hlater⟩ := accepted_suffix hrun
  refine ⟨(later.filter fun e => e.1.key? = some k).reverse.flatMap fun e => e.2.ids, ?_⟩
  unfold issuedOn acceptedOn
  rw [← hlater, List.filter_append, List.reverse_append, List.flatMap_append]

/-- What is left of a run is a run, and each world of the one is echoed by one of the other. -/
theorem echoes_of_run {cache : Cache} {registry : Registry} (hids : w.issued.Nodup)
    (hρ : (w.issuedOn k).map ρ = (ids.take (w.issuedOn k).length).1) {before : List Move} :
    ∀ {later : List Move} {u : World}, (start cache ids registry).run? before = some u →
      u.run? later = some w → ∃ v,
        (start cache ids registry).run? (w.erased k ρ before) = some v ∧ Echoes k ρ ids u v := by
  induction before using List.reverseRecOn with
  | nil =>
      intro later u hrun hlater
      cases hrun
      exact ⟨_, rfl, echoes_start k ρ cache ids registry⟩
  | append_singleton before m ih =>
      intro later u' hrun hlater
      obtain ⟨u, hbefore, hlast⟩ := run?_append.mp hrun
      obtain ⟨t, hstep, hnil⟩ := run?_cons.mp hlast
      obtain rfl : t = u' := Option.some.inj hnil
      obtain ⟨v, hv, hechoes⟩ := ih hbefore (run?_cons.mpr ⟨t, hstep, hlater⟩)
      have hids' : t.issued.Nodup := nodup_issued_of_run hlater hids
      have hids_u : u.issued.Nodup := nodup_issued_of_step hstep hids'
      have hρ' : (t.issuedOn k).map ρ = (ids.take (t.issuedOn k).length).1 := by
        obtain ⟨rest, hrest⟩ := issuedOn_prefix hlater k
        rw [← hrest] at hρ
        exact (Allocator.renamed_append hρ).1
      have horder := orderly_of_run hbefore hids_u
      obtain ⟨v', hv', hechoes'⟩ := hechoes.step horder (sends_of_run hbefore hids_u)
        (orderly_of_run hv (hechoes.nodup_issued hids_u)) hstep hids' hρ'
        (concerns_eq horder hstep hlater hids)
      refine ⟨v', ?_, hechoes'⟩
      rw [erased, List.filter_append, List.map_append]
      exact run?_append.mpr ⟨v, hv, hv'⟩

/-! ### The result -/

/-- Two worlds do not differ for a key, other than in numbers: the series is the same, the same
requests on the key were accepted and have the same answers, and requests and bars that come next
for the key are treated alike. -/
structure SameFor (k : SeriesKey) (ρ : Equiv.Perm AssignedId) (u v : World) : Prop where
  series : v.series k = u.series k
  accepted : v.accepted = (u.acceptedOn k).map fun e => (e.1.rename ρ, e.2.rename ρ)
  answers : ∀ e ∈ u.acceptedOn k,
    v.answers (ρ e.2.assignedId) = (u.answers e.2.assignedId).map (renamedAnswer ρ)
  declined : ∀ now r e, r.key? = some k →
    (v.broker.submit now r = .error e ↔ u.broker.submit now r = .error e)
  added : ∀ a, a.key? = some k → (v.broker.addData a).2 = (u.broker.addData a).2

theorem Echoes.sameFor (h : Echoes k ρ ids u v) : SameFor k ρ u v where
  series := h.cache.series
  accepted := h.accepted
  answers e he := congrArg View.answers (h.views e he)
  declined now r e hkey := by
    rcases Broker.submit_agree now h.cache h.registry hkey with
      ⟨e', herror, herror'⟩ | ⟨route, slot, hsubmit, hsubmit'⟩
    · rw [herror, herror']
    · rw [hsubmit, hsubmit']
      exact ⟨(nomatch ·), (nomatch ·)⟩
  added a hkey := (Broker.addData_agree h.cache hkey).1

end World

/-- The request without its numbers: its instrument, frequency, range and flags. -/
def Request.unnumbered (r : Request) : Request :=
  { r with requestId := 0, assignedId := none, parentId := none }

namespace World

variable {k : SeriesKey} {ρ : Equiv.Perm AssignedId} {w : World}

/-- A source that does not look at numbers answers the fetches that are left as it did before. -/
theorem answered_of_erased {moves : List Move} {source : Request → Except MarketError (List Bar)}
    (h : ∀ r result, .fetched r result ∈ moves → result = source r.unnumbered) {r : Request}
    {result : Except MarketError (List Bar)} (hmem : .fetched r result ∈ w.erased k ρ moves) :
    result = source r.unnumbered := by
  obtain ⟨m, hm, heq⟩ := List.mem_map.mp hmem
  cases m with
  | fetched r' result' =>
      cases heq
      exact h r' _ (List.mem_filter.mp hm).1
  | submit => cases heq
  | served => cases heq
  | added => cases heq
  | refused => cases heq
  | connected => cases heq

/-- **Keys do not interfere.** Leave out of a run every move for another key. What is left is a run
in which the requests on the key have other numbers, the first ones of the allocator. From move
to move it shows the same series of the key, and gives the requests on it the same answers. And
sources whose answers do not depend on numbers answer in it as they did before. -/
theorem keys_do_not_interfere {cache : Cache} {ids : Allocator} {registry : Registry}
    {moves : List Move} (hrun : (start cache ids registry).run? moves = some w)
    (hlength : w.issued.length ≤ 2 ^ 64) (k : SeriesKey) : ∃ ρ : Equiv.Perm AssignedId,
      (w.issuedOn k).map ρ = (ids.take (w.issuedOn k).length).1 ∧
      (∀ before later u, moves = before ++ later → (start cache ids registry).run? before = some u →
        ∃ v, (start cache ids registry).run? (w.erased k ρ before) = some v ∧ SameFor k ρ u v) ∧
      ∀ source : Request → Except MarketError (List Bar),
        (∀ r result, .fetched r result ∈ moves → result = source r.unnumbered) →
        ∀ r result, .fetched r result ∈ w.erased k ρ moves → result = source r.unnumbered := by
  have hids : w.issued.Nodup := nodup_of_length hrun hlength
  have hfew : (w.issuedOn k).length ≤ 2 ^ 64 := (w.issuedOn_subperm k).length_le.trans hlength
  obtain ⟨ρ, hρ⟩ := exists_renaming (nodup_issuedOn hids k) (Allocator.nodup_take hfew ids)
    (Allocator.length_take _ ids).symm
  refine ⟨ρ, hρ, ?_, fun source hsource r result => answered_of_erased hsource⟩
  rintro before later u rfl hbefore
  obtain ⟨u', hu', hlater⟩ := run?_append.mp hrun
  obtain rfl : u = u' := Option.some.inj (hbefore.symm.trans hu')
  obtain ⟨v, hv, hechoes⟩ := echoes_of_run hids hρ hbefore hlater
  exact ⟨v, hv, hechoes.sameFor⟩

end World

/-- Work for hours and for days in turns: the hours come, while of two gaps of days one fails. -/
def Sample.turnsRun : List Move :=
  [.submit 0 (regularRequest 10 13),
    .submit 0 (request 1 9),
    .fetched (((request 1 9).filed (number 2)).part (midnight 6 + Frequency.oneDay.halfBar)
      (midnight 9) (number 4)) (.error (.timeout "feed")),
    .fetched ((regularRequest 10 13).filed (number 1)) (.ok [hourBar 12]),
    .fetched (((request 1 9).filed (number 2)).part (midnight 1)
      (midnight 4 - Frequency.oneDay.halfBar) (number 3)) (.ok [bar 2])]

namespace World

/-- The days get the same error and keep the same bars as if nobody had asked for the hours. -/
theorem days_apart_from_hours : ∃ w ρ v,
    (start (Sample.cacheOf [4, 5, 6]) .fresh Sample.registry).run? Sample.turnsRun = some w ∧
      w.issued.length ≤ 2 ^ 64 ∧
      (start (Sample.cacheOf [4, 5, 6]) .fresh Sample.registry).run?
        (w.erased Sample.key ρ Sample.turnsRun) = some v ∧
      ρ (Sample.number 2) = Sample.number 1 ∧
      w.answers (Sample.number 2) = [.error (.source (.timeout "feed"))] ∧
      v.answers (Sample.number 1) = [.error (.source (.timeout "feed"))] ∧
      v.series Sample.key = w.series Sample.key := by
  obtain ⟨w, hrun, hlength, hissued, haccepted, hanswers⟩ :
      ∃ w, (start (Sample.cacheOf [4, 5, 6]) .fresh Sample.registry).run? Sample.turnsRun = some w ∧
        w.issued.length ≤ 2 ^ 64 ∧
        w.issuedOn Sample.key = [Sample.number 2, Sample.number 3, Sample.number 4] ∧
        (w.acceptedOn Sample.key).map (·.2.assignedId) = [Sample.number 2] ∧
        w.answers (Sample.number 2) = [.error (.source (.timeout "feed"))] :=
    ⟨_, rfl, by decide, by decide, by decide, rfl⟩
  obtain ⟨ρ, hρ, hworlds, -⟩ := keys_do_not_interfere hrun hlength Sample.key
  obtain ⟨v, hv, hsame⟩ := hworlds Sample.turnsRun [] w (List.append_nil _).symm hrun
  rw [hissued] at hρ
  have hid : ρ (Sample.number 2) = Sample.number 1 := (List.cons.inj hρ).1
  obtain ⟨e, he, hnumber⟩ := List.mem_map.mp (haccepted ▸ List.mem_singleton_self _)
  have hanswered := hsame.answers e he
  rw [hnumber, hid, hanswers] at hanswered
  exact ⟨w, ρ, v, hrun, hlength, hv, hid, hanswers, hanswered, hsame.series⟩

end World

end BarArchive
