import Ddsnap.ReplicationCycle

/-!
# Convergence of the replication

At every moment the volume differs from the hold snapshot only in chunks that were written upstream up to the snapshot
that is being received, and what the progress file says has been received is there.  With that a transfer that completes
leaves the content of its snapshot, whichever way it was started.

The progress file is not trusted while it names a hold snapshot in good state, and then newer transfers may overwrite
what it promises.  So the replication converges in every run in which such a hold snapshot is not lost downstream, and
goes wrong in a run in which it is.
-/

namespace Ddsnap.Cycle

variable {β : Type}

/-! ### The invariant -/

variable {u : Upstream β} {st st' : State β} {snap stop h t c : Nat} {old resume : Option Nat} {a : Answer}

private theorem State.good_iff : st.good t = true ↔ ∃ v, st.snaps t = .good v := by
  unfold good
  cases st.snaps t <;> simp

/-- What the progress file promises of the volume. -/
def Upto (u : Upstream β) (r : Record) (vol : Nat → β) : Prop :=
  ∀ c < u.chunks, (r.complete = true ∨ c < r.addr) → vol c = u.content r.tag c

namespace State

/-- The newest snapshot that a transfer may have brought into the volume: the one in the progress file as long as it can
be completed, otherwise the last one that was tried. -/
def newest (st : State β) (h : Nat) : Nat :=
  match st.record with
  | some r => if st.alive r.tag = true ∧ r.tag ≠ h then r.tag else st.last
  | none => st.last

/-- The hold snapshot can be the source of a transfer. -/
def Usable (st : State β) (h : Nat) : Prop := st.hold = some h ∧ st.good h = true ∧ st.alive h = true

end State

/-- What holds in every state: the downstream snapshots are right; the tags are even and grow; where the volume differs
from a hold snapshot that can be used, the chunk was written upstream before the newest snapshot; and the progress file
is right, unless it names a hold snapshot in good state. -/
structure Sound (u : Upstream β) (st : State β) : Prop where
  snaps : ∀ t v, t % 2 = 0 → st.snaps t = .good v → ∀ c < u.chunks, v c = u.content t c
  hold_even : ∀ h ∈ st.hold, h % 2 = 0
  record_even : ∀ r ∈ st.record, r.tag % 2 = 0
  hold_le : ∀ h ∈ st.hold, h ≤ st.last
  record_le : ∀ r ∈ st.record, r.tag ≤ st.last
  hold_le_record : ∀ h ∈ st.hold, ∀ r ∈ st.record, h ≤ r.tag
  since : ∀ h, st.Usable h → ∀ c < u.chunks, st.vol c ≠ u.content h c → u.changed h (st.newest h) c = true
  record : ∀ r ∈ st.record, st.alive r.tag = true → ¬(st.hold = some r.tag ∧ st.good r.tag = true) → Upto u r st.vol

/-- The answer of `receive start` is still true, except for snapshots that were lost since. -/
structure Answered (st : State β) (a : Answer) : Prop where
  hold : ∀ h ∈ a.hold, st.hold = some h
  lost : a.hold = none → ∀ h ∈ st.hold, st.good h = false
  nothing : st.record = none → a.send = none ∧ a.addr = none
  send : ∀ r ∈ st.record, a.hold = some r.tag ∧ st.good r.tag = true ∧ a.send = none ∧ a.addr = none ∨
    a.hold ≠ some r.tag ∧ a.send = some r.tag ∧ a.addr = some r.addr

/-- The transfer fits the state: it begins from the hold snapshot, it completes the partial replication if there is one
that can be completed, and it resumes only there. -/
structure Ready (st : State β) (snap : Nat) (old resume : Option Nat) : Prop where
  even : snap % 2 = 0
  le : snap ≤ st.last
  hold_le : ∀ h ∈ st.hold, h ≤ snap
  old : ∀ h ∈ old, st.hold = some h
  resume : ∀ x ∈ resume, ∃ r, st.record = some r ∧ r.tag = snap ∧ r.addr = x ∧
    ¬(st.hold = some r.tag ∧ st.good r.tag = true)
  record : ∀ r ∈ st.record, st.alive r.tag = true → r.tag = snap ∨ st.hold = some r.tag ∧ st.good r.tag = true
  newest : ∀ h, st.Usable h → st.alive snap = true → st.newest h = snap

/-- The volume has the content of the snapshot that was received. -/
structure Received (u : Upstream β) (st : State β) (next : Nat) : Prop where
  record : ∃ r ∈ st.record, r.tag = next
  vol : ∀ c < u.chunks, st.vol c = u.content next c

/-- What holds while an attempt is under way. -/
def AtPhase (u : Upstream β) (st : State β) : Phase → Prop
  | .idle | .done _ _ => True
  | .started snap _ => snap = st.last ∧ snap % 2 = 0
  | .answered snap _ a => (snap = st.last ∧ snap % 2 = 0) ∧ Answered st a
  | .ready snap old resume => Ready st snap old resume
  | .sent _ _ => ∀ r ∈ st.record, Received u st r.tag
  | .created _ _ next | .dropped _ _ next | .held _ _ next => Received u st next

/-! ### Losses upstream -/

private theorem Sound.withPhase (hs : Sound u st) (p : Phase) : Sound u { st with phase := p } :=
  ⟨hs.snaps, hs.hold_even, hs.record_even, hs.hold_le, hs.record_le, hs.hold_le_record, hs.since, hs.record⟩

private theorem Ready.withPhase (hr : Ready st snap old resume) (p : Phase) : Ready
    { st with phase := p } snap old resume :=
  ⟨hr.even, hr.le, hr.hold_le, hr.old, hr.resume, hr.record, hr.newest⟩

private theorem Sound.ended (hs : Sound u st) (upHold : Option Nat) (p : Phase) :
    Sound u { st with upHold := upHold, phase := p } :=
  ⟨hs.snaps, hs.hold_even, hs.record_even, hs.hold_le, hs.record_le, hs.hold_le_record, hs.since, hs.record⟩

section LessAlive

variable {alive : Nat → Bool}

private theorem Sound.newest_le_last (hs : Sound u st) (h : Nat) : st.newest h ≤ st.last := by
  unfold State.newest
  split
  · rename_i r hr
    split
    · exact hs.record_le r hr
    · exact Nat.le_refl _
  · exact Nat.le_refl _

private theorem State.newest_lessAlive (ha : ∀ t, alive t = true → st.alive t = true) (h : Nat) :
    State.newest { st with alive := alive } h = st.newest h ∨ State.newest { st with alive := alive } h = st.last := by
  unfold newest
  cases st.record with
  | none => exact .inl rfl
  | some r =>
    dsimp only
    by_cases hr : alive r.tag = true ∧ r.tag ≠ h
    · rw [if_pos hr, if_pos ⟨ha _ hr.1, hr.2⟩]
      exact .inl rfl
    · rw [if_neg hr]
      exact .inr rfl

private theorem Sound.lessAlive (hs : Sound u st) (ha : ∀ t, alive t = true → st.alive t = true) :
    Sound u { st with alive := alive } where
  snaps := hs.snaps
  hold_even := hs.hold_even
  record_even := hs.record_even
  hold_le := hs.hold_le
  record_le := hs.record_le
  hold_le_record := hs.hold_le_record
  since h hu c hc hne := by
    have hold := hs.since h ⟨hu.1, hu.2.1, ha h hu.2.2⟩ c hc hne
    rcases State.newest_lessAlive ha h with heq | heq <;> rw [heq]
    · exact hold
    · exact Upstream.changed_mono (hs.newest_le_last h) hold
  record r hr hal := hs.record r hr (ha _ hal)

private theorem Ready.lessAlive (hr : Ready st snap old resume) (ha : ∀ t, alive t = true → st.alive t = true) :
    Ready { st with alive := alive } snap old resume where
  even := hr.even
  le := hr.le
  hold_le := hr.hold_le
  old := hr.old
  resume := hr.resume
  record r hrec hal := hr.record r hrec (ha _ hal)
  newest h hu hsnap := by
    have hnew := hr.newest h ⟨hu.1, hu.2.1, ha h hu.2.2⟩ (ha _ hsnap)
    -- a record that cannot be completed any more was not the one of `snap`, which is still there
    unfold State.newest at hnew ⊢
    cases hrec : st.record with
    | none => simpa [hrec] using hnew
    | some r =>
      simp only [hrec] at hnew ⊢
      by_cases hal : st.alive r.tag = true ∧ r.tag ≠ h
      · rw [if_pos hal] at hnew
        rw [if_pos ⟨hnew ▸ hsnap, hal.2⟩, hnew]
      · rw [if_neg hal] at hnew
        rw [if_neg (fun hc => hal ⟨ha _ hc.1, hc.2⟩), hnew]

private theorem AtPhase.lessAlive {p : Phase} (hp : AtPhase u st p) (ha : ∀ t, alive t = true → st.alive t = true) :
    AtPhase u { st with alive := alive } p := by
  cases p with
  | idle | done => trivial
  | started => exact hp
  | answered => exact ⟨hp.1, hp.2.hold, hp.2.lost, hp.2.nothing, hp.2.send⟩
  | ready => exact Ready.lessAlive hp ha
  | sent => exact fun r hr => ⟨(hp r hr).record, (hp r hr).vol⟩
  | created | dropped | held => exact ⟨hp.record, hp.vol⟩

private theorem update_false_le (t t' : Nat) (h : Function.update st.alive t false t' = true) : st.alive t' = true := by
  by_cases ht : t' = t
  · simp [ht] at h
  · simpa [Function.update_of_ne ht] using h

private theorem State.dropUp_eq (t : Option Nat) (deleted : Bool) :
    ∃ alive, (∀ t, alive t = true → st.alive t = true) ∧ st.dropUp t deleted = { st with alive := alive } := by
  unfold dropUp
  split
  · exact ⟨_, update_false_le _, rfl⟩
  · exact ⟨_, fun _ h => h, rfl⟩

private theorem Sound.dropUp (hs : Sound u st) (t : Option Nat) (deleted : Bool) : Sound u (st.dropUp t deleted) := by
  obtain ⟨alive, hle, heq⟩ := st.dropUp_eq t deleted
  exact heq ▸ hs.lessAlive hle

private theorem AtPhase.dropUp {p : Phase} (hp : AtPhase u st p) (t : Option Nat) (deleted : Bool) :
    AtPhase u (st.dropUp t deleted) p := by
  obtain ⟨alive, hle, heq⟩ := st.dropUp_eq t deleted
  exact heq ▸ hp.lessAlive hle

end LessAlive

/-! ### Losses downstream -/

section Lose

variable {s' : Snap β}

private theorem State.good_lose (hbad : ∀ v, s' ≠ .good v) {t' : Nat}
    (h : State.good { st with snaps := Function.update st.snaps t s' } t' = true) : t' ≠ t ∧ st.good t' = true := by
  obtain ⟨v, hv⟩ := State.good_iff.1 h
  by_cases ht : t' = t
  · subst ht
    exact absurd (by simpa using hv) (hbad v)
  · exact ⟨ht, State.good_iff.2 ⟨v, by simpa [Function.update_of_ne ht] using hv⟩⟩

private theorem State.good_of_ne {t' : Nat} (ht : t' ≠ t) :
    State.good { st with snaps := Function.update st.snaps t s' } t' = st.good t' := by
  simp [State.good, Function.update_of_ne ht]

/-- A snapshot is lost; if the progress file and the hold file name it, the progress file has to be right. -/
private theorem Sound.lose (hs : Sound u st) (hbad : ∀ v, s' ≠ .good v)
    (hk : ∀ r ∈ st.record, st.hold = some t → r.tag = t → Upto u r st.vol) :
    Sound u { st with snaps := Function.update st.snaps t s' } where
  snaps t' v ht' hv := by
    have hgood : State.good { st with snaps := Function.update st.snaps t s' } t' = true := State.good_iff.2 ⟨v, hv⟩
    obtain ⟨hne, -⟩ := State.good_lose hbad hgood
    exact hs.snaps t' v ht' (by simpa [Function.update_of_ne hne] using hv)
  hold_even := hs.hold_even
  record_even := hs.record_even
  hold_le := hs.hold_le
  record_le := hs.record_le
  hold_le_record := hs.hold_le_record
  since h hu := hs.since h ⟨hu.1, (State.good_lose hbad hu.2.1).2, hu.2.2⟩
  record r hr hal hn := by
    by_cases ht : st.hold = some t ∧ r.tag = t
    · exact hk r hr ht.1 ht.2
    · refine hs.record r hr hal fun hg => hn ⟨hg.1, ?_⟩
      have hne : r.tag ≠ t := fun heq => ht ⟨heq ▸ hg.1, heq⟩
      rw [State.good_of_ne hne]
      exact hg.2

private theorem AtPhase.lose {p : Phase} (hp : AtPhase u st p) (hbad : ∀ v, s' ≠ .good v)
    (hk : ¬(st.hold = some t ∧ st.record.map Record.tag = some t)) :
    AtPhase u { st with snaps := Function.update st.snaps t s' } p := by
  -- a hold snapshot that the progress file names is not the one that is lost
  have hkept : ∀ r ∈ st.record, st.hold = some r.tag ∧ st.good r.tag = true →
      State.good { st with snaps := Function.update st.snaps t s' } r.tag = true := by
    intro r hr hg
    have hne : r.tag ≠ t := fun heq => hk ⟨heq ▸ hg.1, by simp [Option.mem_def.1 hr, heq]⟩
    rw [State.good_of_ne hne]
    exact hg.2
  cases p with
  | idle | done => trivial
  | started => exact hp
  | answered snap old a =>
    obtain ⟨hsnap, ha⟩ := hp
    refine ⟨hsnap, ha.hold, fun hn h hh => ?_, ha.nothing, fun r hr => ?_⟩
    · by_contra hg
      exact absurd (State.good_lose hbad (by simpa using hg)).2 (by simp [ha.lost hn h hh])
    · rcases ha.send r hr with ⟨hh, hg, hrest⟩ | hrest
      · exact .inl ⟨hh, hkept r hr ⟨ha.hold _ hh, hg⟩, hrest⟩
      · exact .inr hrest
  | ready snap old resume =>
    refine ⟨hp.even, hp.le, hp.hold_le, hp.old, fun x hx => ?_, fun r hr hal => ?_, fun h hu => ?_⟩
    · obtain ⟨r, hr, htag, haddr, hn⟩ := hp.resume x hx
      exact ⟨r, hr, htag, haddr, fun hg => hn ⟨hg.1, (State.good_lose hbad hg.2).2⟩⟩
    · exact (hp.record r hr hal).imp_right fun hg => ⟨hg.1, hkept r hr hg⟩
    · exact hp.newest h ⟨hu.1, (State.good_lose hbad hu.2.1).2, hu.2.2⟩
  | sent => exact fun r hr => ⟨(hp r hr).record, (hp r hr).vol⟩
  | created | dropped | held => exact ⟨hp.record, hp.vol⟩

end Lose

/-! ### The steps of an attempt -/

private theorem Sound.begin (hs : Sound u st) (hle : st.last ≤ snap) : Sound u { st with last := snap } where
  snaps := hs.snaps
  hold_even := hs.hold_even
  record_even := hs.record_even
  hold_le h hh := (hs.hold_le h hh).trans hle
  record_le r hr := (hs.record_le r hr).trans hle
  hold_le_record := hs.hold_le_record
  since h hu c hc hne := by
    refine Upstream.changed_mono ?_ (hs.since h hu c hc hne)
    unfold State.newest
    cases st.record with
    | none => exact hle
    | some r =>
      dsimp only
      split
      · exact Nat.le_refl _
      · exact hle
  record := hs.record

private theorem State.receiveStart_answered : Answered st st.receiveStart := by
  have hfilter : ∀ {h}, st.hold.filter st.good = some h ↔ st.hold = some h ∧ st.good h = true := by
    intro h
    simp [Option.filter_eq_some_iff]
  have hlost : st.hold.filter st.good = none → ∀ h ∈ st.hold, st.good h = false := by
    intro hn h hh
    by_contra hg
    rw [hfilter.2 ⟨hh, by simpa using hg⟩] at hn
    cases hn
  unfold receiveStart
  cases hr : st.record with
  | none =>
    exact ⟨fun h hh => (hfilter.1 hh).1, hlost, fun _ => ⟨rfl, rfl⟩, fun r hr' => by simp [hr] at hr'⟩
  | some r =>
    dsimp only
    split
    · rename_i heq
      refine ⟨fun h hh => (hfilter.1 hh).1, hlost, fun hn => by simp [hr] at hn, fun r' hr' => .inl ?_⟩
      obtain rfl : r = r' := by simpa [hr] using hr'
      exact ⟨heq, (hfilter.1 heq).2, rfl, rfl⟩
    · rename_i hne
      refine ⟨fun h hh => (hfilter.1 hh).1, hlost, fun hn => by simp [hr] at hn, fun r' hr' => .inr ?_⟩
      obtain rfl : r = r' := by simpa [hr] using hr'
      exact ⟨hne, rfl, rfl⟩

private theorem takeHold_spec {alive : Nat → Bool} {old' addr : Option Nat}
    (h : takeHold alive snap old a = some (old', addr)) :
    (∀ s ∈ old', a.hold = some s) ∧ ∀ x ∈ addr, a.addr = some x := by
  unfold takeHold at h
  cases ha : a.hold with
  | none =>
    simp only [ha, Option.some.injEq, Prod.mk.injEq] at h
    exact ⟨by simp [← h.1], by simp [← h.2]⟩
  | some s =>
    simp only [ha] at h
    split_ifs at h with h1 h2 <;> simp only [Option.some.injEq, Prod.mk.injEq] at h
    · exact ⟨by simp [← h.1, h1], by simp [← h.2]⟩
    · exact ⟨by simp [← h.1], by simp [← h.2]⟩
    · exact ⟨by simp [← h.1], by simp [← h.2]⟩

private theorem takeSend_spec {alive : Nat → Bool} {addr old' addr' : Option Nat} {snap' s : Nat} (hs : a.send = some s)
    (hne : a.hold ≠ some s) (h : takeSend alive snap old addr a = (snap', old', addr')) :
    snap' = s ∧ old' = old ∧ addr' = addr ∨ alive s = false ∧ snap' = snap ∧ old' = none ∧ addr' = none := by
  simp only [takeSend, hs] at h
  split_ifs at h with h1 h2 <;> simp only [Prod.mk.injEq] at h
  · exact .inl ⟨h.1.symm, h.2.1.symm, h.2.2.symm⟩
  · exact .inr ⟨by simpa using h2, h.1.symm, h.2.1.symm, h.2.2.symm⟩
  · have hsnap : s = snap := by
      by_contra hsnap
      exact h1 ⟨hsnap, hne⟩
    exact .inl ⟨h.1.symm.trans hsnap.symm, h.2.1.symm, h.2.2.symm⟩

section Choose

variable {alive : Nat → Bool} {held old' addr addr' : Option Nat} {snap' : Nat}

private theorem Answered.not_held (ha : Answered st a) {r : Record} (hne : a.hold ≠ some r.tag) :
    ¬(st.hold = some r.tag ∧ st.good r.tag = true) := by
  rintro ⟨hh, hg⟩
  cases hold : a.hold with
  | none => exact absurd hg (by simp [ha.lost hold _ hh])
  | some h =>
    have heq : h = r.tag := by simpa [hh] using (ha.hold h hold).symm
    exact hne (heq ▸ hold)

/-- What the script decides: the snapshot asked for, from the beginning, where no partial replication can be completed,
and otherwise that partial replication. -/
private theorem Answered.sends (ha : Answered st a) (hold : takeHold alive snap held a = some (old', addr))
    (hsend : takeSend st.alive snap old' addr a = (snap', old, addr')) :
    (∀ h ∈ old, st.hold = some h) ∧
      (snap' = snap ∧ addr' = none ∧
          (∀ r ∈ st.record, st.alive r.tag = true → st.hold = some r.tag ∧ st.good r.tag = true) ∨
        ∃ r ∈ st.record, r.tag = snap' ∧ (∀ x ∈ addr', r.addr = x) ∧
          ¬(st.hold = some r.tag ∧ st.good r.tag = true)) := by
  obtain ⟨hfrom, haddr⟩ := takeHold_spec hold
  have hfrom' : ∀ h ∈ old', st.hold = some h := fun h hh => ha.hold h (hfrom h hh)
  -- without a partial replication in the answer nothing is changed, and there is no address
  have hnothing : a.send = none → a.addr = none → snap' = snap ∧ old = old' ∧ addr' = none := by
    intro hn hna
    have hnone : addr = none := Option.eq_none_iff_forall_not_mem.2 fun x hx => by simpa [hna] using haddr x hx
    simp only [takeSend, hn, Prod.mk.injEq] at hsend
    exact ⟨hsend.1.symm, hsend.2.1.symm, hsend.2.2.symm.trans hnone⟩
  cases hr : st.record with
  | none =>
    obtain ⟨hsnap, rfl, hnone⟩ := hnothing (ha.nothing hr).1 (ha.nothing hr).2
    exact ⟨hfrom', .inl ⟨hsnap, hnone, fun r hr' => by simp at hr'⟩⟩
  | some r =>
    rcases ha.send r hr with ⟨hh, hg, hn, hna⟩ | ⟨hne, hsome, hra⟩
    · obtain ⟨hsnap, rfl, hnone⟩ := hnothing hn hna
      refine ⟨hfrom', .inl ⟨hsnap, hnone, fun r' hr' _ => ?_⟩⟩
      obtain rfl : r = r' := by simpa using hr'
      exact ⟨ha.hold _ hh, hg⟩
    · rcases takeSend_spec hsome hne hsend with ⟨hsnap, rfl, rfl⟩ | ⟨hdead, hsnap, rfl, rfl⟩
      · refine ⟨hfrom', .inr ⟨r, rfl, hsnap.symm, fun x hx => ?_, ha.not_held hne⟩⟩
        simpa [hra] using haddr x hx
      · refine ⟨by simp, .inl ⟨hsnap, rfl, fun r' hr' hal => ?_⟩⟩
        obtain rfl : r = r' := by simpa using hr'
        exact absurd hal (by simp [hdead])

/-- What the script decides fits the state. -/
private theorem Answered.ready (hs : Sound u st) (ha : Answered st a) (hlast : snap = st.last) (heven : snap % 2 = 0)
    (hold : takeHold alive snap held a = some (old', addr))
    (hsend : takeSend st.alive snap old' addr a = (snap', old, addr')) :
    Ready st snap' old (if a.send ≠ a.hold then addr' else none) := by
  have hresume : ∀ x, x ∈ (if a.send ≠ a.hold then addr' else none) → x ∈ addr' := by
    intro x hx
    split_ifs at hx with hne
    · exact hx
    · cases hx
  obtain ⟨hfrom, ⟨rfl, rfl, hheld⟩ | ⟨r, hr, rfl, haddr, hn⟩⟩ := ha.sends hold hsend
  · refine ⟨heven, hlast.le, fun h hh => hlast ▸ hs.hold_le h hh, hfrom, fun x hx => ?_,
      fun r hr hal => .inr (hheld r hr hal), fun h hu _ => ?_⟩
    · simpa using hresume x hx
    · -- a record that can be completed is of the hold snapshot itself
      unfold State.newest
      cases hr : st.record with
      | none => exact hlast.symm
      | some r =>
        have hif : ¬(st.alive r.tag = true ∧ r.tag ≠ h) := by
          rintro ⟨hal, hne⟩
          have heq : st.hold = some h := hu.1
          exact hne (by simpa [heq] using (hheld r hr hal).1.symm)
        simp only [if_neg hif, hlast]
  · refine ⟨hs.record_even r hr, hs.record_le r hr, fun h hh => hs.hold_le_record h hh r hr, hfrom,
      fun x hx => ⟨r, hr, rfl, haddr x (hresume x hx), hn⟩, fun r' hr' _ => .inl ?_, fun h hu hal => ?_⟩
    · rw [Option.mem_unique hr' hr]
    · have hne : r.tag ≠ h := by
        rintro rfl
        exact hn ⟨hu.1, hu.2.1⟩
      have hr' : st.record = some r := hr
      simp only [State.newest, hr', if_pos (And.intro hal hne)]

private theorem Ready.full (hr : Ready st snap old none) : Ready st snap none none :=
  ⟨hr.even, hr.le, hr.hold_le, by simp, by simp, hr.record, hr.newest⟩

private theorem Sound.choose {dropOld dropSnap full : Bool} (hs : Sound u st)
    (hp : AtPhase u st (.answered snap old a)) :
    Sound u (st.choose snap old a dropOld dropSnap full) ∧
      AtPhase u (st.choose snap old a dropOld dropSnap full) (st.choose snap old a dropOld dropSnap full).phase := by
  unfold State.choose
  cases hold : takeHold st.alive snap old a with
  | none => exact ⟨(hs.dropUp old dropOld).ended _ _, trivial⟩
  | some p =>
    obtain ⟨old', addr⟩ := p
    -- three snapshots may be dropped on the way, and none of it spoils what is known
    obtain ⟨st₁, heq₁, hs₁, hp₁⟩ : ∃ st₁, (if a.hold = none then st.dropUp old dropOld else st) = st₁ ∧ Sound u st₁ ∧
        AtPhase u st₁ (.answered snap old a) := by
      split
      · exact ⟨_, rfl, hs.dropUp _ _, hp.dropUp _ _⟩
      · exact ⟨_, rfl, hs, hp⟩
    simp only [heq₁]
    rcases hsend : takeSend st₁.alive snap old' addr a with ⟨snap', old'', addr'⟩
    have hr₁ : AtPhase u st₁ (.ready snap' old'' _) := hp₁.2.ready hs₁ hp₁.1.1 hp₁.1.2 hold hsend
    generalize (if a.send ≠ a.hold then addr' else none) = resume at hr₁
    obtain ⟨st₂, heq₂, hs₂, hr₂⟩ : ∃ st₂, (if snap' ≠ snap then st₁.dropUp (some snap) dropSnap else st₁) = st₂ ∧
        Sound u st₂ ∧ AtPhase u st₂ (.ready snap' old'' resume) := by
      split
      · exact ⟨_, rfl, hs₁.dropUp _ _, hr₁.dropUp _ _⟩
      · exact ⟨_, rfl, hs₁, hr₁⟩
    simp only [heq₂]
    split
    · rename_i hfull
      rw [hfull.2] at hr₂
      have hr₃ : Ready (st₂.dropUp old'' dropOld) snap' none none :=
        AtPhase.dropUp (u := u) (p := .ready snap' none none) (Ready.full hr₂) old'' dropOld
      exact ⟨(hs₂.dropUp _ _).withPhase _, hr₃.withPhase _⟩
    · exact ⟨hs₂.withPhase _, Ready.withPhase hr₂ _⟩

end Choose

section Transfer

variable {written : Option (Bool × Nat)} {ok : Bool}

/-- The part of the volume that the transfer has passed has the content of the snapshot. -/
private theorem Sound.rewritten_eq (hs : Sound u st) (hr : Ready st snap old resume) (hcan : st.canSend snap old = true)
    (hc : c < u.chunks) (hstop : c < stop) :
    rewritten (u.listed old snap) (u.content snap) (resume.getD 0) stop st.vol c = u.content snap c := by
  simp only [State.canSend, Bool.and_eq_true] at hcan
  unfold rewritten
  by_cases hstart : resume.getD 0 ≤ c
  · by_cases hl : u.listed old snap c = true
    · rw [if_pos ⟨hstart, hstop, hl⟩]
    · rw [if_neg (fun h => hl h.2.2)]
      -- a chunk that is not on the list is as in the source, and so as in the snapshot
      cases old with
      | none => exact absurd rfl hl
      | some h =>
        simp only [Option.all_some, Bool.and_eq_true] at hcan
        have hhold : st.hold = some h := hr.old h rfl
        have hu : st.Usable h := ⟨hhold, hcan.2.2, hcan.2.1⟩
        have hsame : st.vol c = u.content h c := by
          by_contra hne
          exact hl (hr.newest h hu hcan.1 ▸ hs.since h hu c hc hne)
        rw [hsame]
        exact (Upstream.content_eq_of_not_changed (hr.hold_le h hhold) (by simpa [Upstream.listed] using hl)).symm
  · rw [if_neg (fun h => hstart h.1)]
    cases resume with
    | none => exact absurd (Nat.zero_le c) hstart
    | some x =>
      obtain ⟨r, hrec, rfl, rfl, hn⟩ := hr.resume x rfl
      exact hs.record r hrec hcan.1 hn c hc (.inr (by simpa using hstart))

private theorem State.le_newest_transfer (hr : Ready st snap old resume) (hu : st.Usable h)
    (hal : st.alive snap = true) : snap ≤ (st.transfer u snap old resume stop written).newest h := by
  cases written with
  | none => exact (hr.newest h hu hal).ge
  | some w =>
    show snap ≤ if st.alive snap = true ∧ snap ≠ h then snap else st.last
    split
    · exact Nat.le_refl _
    · exact hr.le

private theorem Sound.transfer (hs : Sound u st) (hr : Ready st snap old resume) (hcan : st.canSend snap old = true)
    (ht : Transfers u stop written ok) : Sound u (st.transfer u snap old resume stop written) := by
  have hal : st.alive snap = true := by
    simp only [State.canSend, Bool.and_eq_true] at hcan
    exact hcan.1
  -- the record is the old one or of the snapshot that is sent
  have hrec : ∀ r ∈ (st.transfer u snap old resume stop written).record,
      written = none ∧ r ∈ st.record ∨ r.tag = snap ∧ ∃ w ∈ written, r.complete = w.1 ∧ r.addr = w.2 := by
    intro r hr
    cases written with
    | none => exact .inl ⟨rfl, hr⟩
    | some w =>
      obtain rfl : (⟨snap, w.1, w.2⟩ : Record) = r := by simpa [State.transfer] using hr
      exact .inr ⟨rfl, w, rfl, rfl, rfl⟩
  refine ⟨hs.snaps, hs.hold_even, fun r hr' => ?_, hs.hold_le, fun r hr' => ?_, fun h hh r hr' => ?_,
    fun h hu c hc hne => ?_, fun r hr' hral hn c hc hpart => ?_⟩
  · rcases hrec r hr' with ⟨-, hold⟩ | ⟨htag, -⟩
    · exact hs.record_even r hold
    · exact htag ▸ hr.even
  · rcases hrec r hr' with ⟨-, hold⟩ | ⟨htag, -⟩
    · exact hs.record_le r hold
    · exact htag ▸ hr.le
  · rcases hrec r hr' with ⟨-, hold⟩ | ⟨htag, -⟩
    · exact hs.hold_le_record h hh r hold
    · exact htag ▸ hr.hold_le h hh
  · refine Upstream.changed_mono (State.le_newest_transfer hr hu hal) ?_
    by_cases hw : resume.getD 0 ≤ c ∧ c < stop ∧ u.listed old snap c = true
    · by_contra hch
      refine hne ?_
      simp only [State.transfer, rewritten, if_pos hw]
      exact Upstream.content_eq_of_not_changed (hr.hold_le h hu.1) (by simpa using hch)
    · simp only [State.transfer, rewritten, if_neg hw] at hne
      exact hr.newest h hu hal ▸ hs.since h hu c hc hne
  · rcases hrec r hr' with ⟨-, hold⟩ | ⟨htag, w, hw, hcomp, haddr⟩
    · have htag : r.tag = snap := (hr.record r hold hral).resolve_right hn
      have hvol := hs.record r hold hral hn c hc hpart
      simp only [State.transfer, rewritten]
      split
      · rw [htag]
      · exact hvol
    · obtain ⟨hle, hall⟩ := ht.1 w hw
      rw [htag]
      refine hs.rewritten_eq hr hcan hc ?_
      rcases hpart with hpart | hpart
      · exact hc.trans_le (hall (hcomp ▸ hpart))
      · exact (haddr ▸ hpart).trans_le hle

private theorem Received.of_transfer (hs : Sound u st) (hr : Ready st snap old resume)
    (hcan : st.canSend snap old = true)
    (ht : Transfers u stop written true) : Received u (st.transfer u snap old resume stop written) snap := by
  obtain ⟨w, hw, hcomp⟩ := Option.map_eq_some_iff.1 (ht.2 rfl)
  subst hw
  exact ⟨⟨_, rfl, rfl⟩, fun c hc => hs.rewritten_eq hr hcan hc (hc.trans_le ((ht.1 w rfl).2 hcomp))⟩

end Transfer

/-! ### The replication cycle -/

private theorem State.create_cases (st : State β) (t : Nat) :
    st.create t = st ∨
      st.snaps t = .absent ∧ st.create t = { st with snaps := Function.update st.snaps t (.good st.vol) } := by
  unfold create
  split
  · rename_i h
    exact .inr ⟨h, rfl⟩
  · exact .inl rfl

private theorem Sound.create (hs : Sound u st) (hv : t % 2 = 0 → ∀ c < u.chunks, st.vol c = u.content t c) :
    Sound u (st.create t) := by
  rcases st.create_cases t with heq | ⟨habs, heq⟩ <;> rw [heq]
  · exact hs
  · refine ⟨fun t' v ht' hv' => ?_, hs.hold_even, hs.record_even, hs.hold_le, hs.record_le, hs.hold_le_record,
      fun h hu c hc hne => ?_, fun r hr hal hn => hs.record r hr hal fun hg => hn ⟨hg.1, ?_⟩⟩
    · by_cases htt : t' = t
      · subst htt
        obtain rfl : st.vol = v := by simpa using hv'
        exact hv ht'
      · exact hs.snaps t' v ht' (by simpa [Function.update_of_ne htt] using hv')
    · by_cases hht : h = t
      · subst hht
        exact absurd (hv (hs.hold_even h hu.1) c hc) hne
      · have hg := hu.2.1
        rw [State.good_of_ne hht] at hg
        exact hs.since h ⟨hu.1, hg, hu.2.2⟩ c hc hne
    · by_cases htt : r.tag = t
      · exact State.good_iff.2 ⟨st.vol, by simp [htt]⟩
      · rw [State.good_of_ne htt]
        exact hg.2

private theorem Received.create {next : Nat} (hr : Received u st next) (t : Nat) : Received u (st.create t) next := by
  rcases st.create_cases t with heq | ⟨-, heq⟩ <;> rw [heq]
  · exact hr
  · exact ⟨hr.record, hr.vol⟩

private theorem Received.upto {next : Nat} (hr : Received u st next) {r : Record} (hrec : r ∈ st.record) :
    Upto u r st.vol := by
  obtain ⟨r', hr', rfl⟩ := hr.record
  obtain rfl := Option.mem_unique hrec hr'
  exact fun c hc _ => hr.vol c hc

private theorem Received.dropDown {next : Nat} (hr : Received u st next) (t : Nat) (deleted : Bool) :
    Received u (st.dropDown t deleted) next := by
  unfold State.dropDown
  split
  · exact ⟨hr.record, hr.vol⟩
  · exact hr

private theorem Sound.dropDown {next : Nat} (hs : Sound u st) (hr : Received u st next) (t : Nat) (deleted : Bool) :
    Sound u (st.dropDown t deleted) := by
  unfold State.dropDown
  split
  · exact hs.lose (by simp) fun r hrec _ _ => hr.upto hrec
  · exact hs

private theorem Sound.setHold {next : Nat} (hs : Sound u st) (hr : Received u st next) :
    Sound u { st with hold := some next } := by
  obtain ⟨r, hrec, htag⟩ := hr.record
  refine ⟨hs.snaps, fun h hh => ?_, hs.record_even, fun h hh => ?_, hs.record_le, fun h hh r' hr' => ?_,
    fun h hu c hc hne => ?_, fun r' hr' _ _ => hr.upto hr'⟩
  · obtain rfl : next = h := by simpa using hh
    exact htag ▸ hs.record_even r hrec
  · obtain rfl : next = h := by simpa using hh
    exact htag ▸ hs.record_le r hrec
  · obtain rfl : next = h := by simpa using hh
    exact (Option.mem_unique hrec hr' ▸ htag).ge
  · obtain rfl : next = h := by simpa using hu.1
    exact absurd (hr.vol c hc) hne

private theorem Sound.removeProgress (hs : Sound u st) : Sound u { st with record := none } :=
  ⟨hs.snaps, hs.hold_even, by simp, hs.hold_le, by simp, by simp,
    fun h hu c hc hne => Upstream.changed_mono (hs.newest_le_last h) (hs.since h hu c hc hne), by simp⟩

/-! ### Every run -/

private theorem sound_of_initial (h : Initial st) : Sound u st where
  snaps t v _ hv := by simp [h.snaps t] at hv
  hold_even := by simp [h.hold]
  record_even := by simp [h.record]
  hold_le := by simp [h.hold]
  record_le := by simp [h.record]
  hold_le_record := by simp [h.record]
  since t hu := by simp [State.Usable, h.hold] at hu
  record := by simp [h.record]

/-- One event keeps the invariant. -/
private theorem Sound.step {e : Event} (hs : Sound u st) (hp : AtPhase u st st.phase) (hk : Keeps st e)
    (h : step u st e = some st') : Sound u st' ∧ AtPhase u st' st'.phase := by
  cases e with
  | begin snap =>
    simp only [Cycle.step] at h
    split_ifs at h with hif hal <;> obtain rfl := Option.some.inj h
    · exact ⟨(hs.begin hif.2.1).withPhase _, rfl, hif.2.2⟩
    · refine ⟨hs.begin hif.2.1, ?_⟩
      have hidle : st.phase = .idle := by
        cases hph : st.phase <;> simp_all
      simp only [hidle]
      trivial
  | receiveStart =>
    simp only [Cycle.step] at h
    split at h
    · rename_i snap old hph
      obtain rfl := Option.some.inj h
      rw [hph] at hp
      have ha : Answered st st.receiveStart := State.receiveStart_answered
      exact ⟨hs.withPhase _, hp, ha.hold, ha.lost, ha.nothing, ha.send⟩
    · cases h
  | choose dropOld dropSnap full =>
    simp only [Cycle.step] at h
    split at h
    · rename_i snap old a hph
      obtain rfl := Option.some.inj h
      rw [hph] at hp
      exact hs.choose hp
    · cases h
  | transmit stop written ok =>
    simp only [Cycle.step] at h
    split at h
    · rename_i snap old resume hph
      by_cases hif : st.canSend snap old = true ∧ Transfers u stop written ok
      swap
      · simp [hif] at h
      rw [if_pos hif] at h
      obtain rfl := Option.some.inj h
      rw [hph] at hp
      refine ⟨(hs.transfer hp hif.1 hif.2).withPhase _, ?_⟩
      cases ok with
      | false => trivial
      | true =>
        have hrecv := Received.of_transfer hs hp hif.1 hif.2
        intro r hr
        obtain ⟨r', hr', htag⟩ := hrecv.record
        obtain rfl : r = r' := Option.mem_unique hr hr'
        rw [htag]
        exact ⟨hrecv.record, hrecv.vol⟩
    · cases h
  | create mount =>
    simp only [Cycle.step] at h
    split at h
    · rename_i snap old next addr hph hrec
      rw [hph] at hp
      have hrecv : Received u st next := hp _ hrec
      have hs' : Sound u (st.create next) := hs.create fun _ => hrecv.vol
      have hodd : (next + 1) % 2 ≠ 0 := by
        have := hs.record_even _ hrec
        simp only at this
        omega
      split_ifs at h with hgood hmount <;> obtain rfl := Option.some.inj h
      · have hs'' : Sound u ((st.create next).create (next + 1)) := hs'.create fun h0 => absurd h0 hodd
        have hrecv' := (hrecv.create next).create (next + 1)
        exact ⟨hs''.withPhase _, hrecv'.record, hrecv'.vol⟩
      · have hrecv' := hrecv.create next
        exact ⟨hs'.withPhase _, hrecv'.record, hrecv'.vol⟩
      · exact ⟨hs'.withPhase _, trivial⟩
    · cases h
  | drop hold mount =>
    simp only [Cycle.step] at h
    split at h
    · rename_i snap old next hph hhold
      obtain rfl := Option.some.inj h
      rw [hph] at hp
      exact ⟨hs.withPhase _, hp.record, hp.vol⟩
    · rename_i snap old next t hph hhold
      obtain rfl := Option.some.inj h
      rw [hph] at hp
      have hrecv : Received u (st.dropDown t hold) next := Received.dropDown hp t hold
      have hs' := (hs.dropDown hp t hold).dropDown hrecv (t + 1) mount
      have hrecv' := hrecv.dropDown (t + 1) mount
      exact ⟨hs'.withPhase _, hrecv'.record, hrecv'.vol⟩
    · cases h
  | setHold =>
    simp only [Cycle.step] at h
    split at h
    · rename_i snap old next hph
      obtain rfl := Option.some.inj h
      rw [hph] at hp
      exact ⟨(hs.setHold hp).withPhase _, hp.record, hp.vol⟩
    · cases h
  | removeProgress =>
    simp only [Cycle.step] at h
    split at h
    · obtain rfl := Option.some.inj h
      exact ⟨hs.removeProgress.withPhase _, trivial⟩
    · cases h
  | setUpHold dropOld =>
    simp only [Cycle.step] at h
    split at h
    · rename_i snap old hph
      obtain rfl := Option.some.inj h
      exact ⟨(hs.dropUp old dropOld).ended _ _, trivial⟩
    · cases h
  | die =>
    obtain rfl := Option.some.inj h
    exact ⟨hs.withPhase _, trivial⟩
  | loseUp t =>
    obtain rfl := Option.some.inj h
    exact ⟨hs.lessAlive (update_false_le t), hp.lessAlive (update_false_le t)⟩
  | loseDown t squashed =>
    obtain rfl := Option.some.inj h
    have hbad : ∀ v : Nat → β, (if squashed = true then Snap.squashed else Snap.absent) ≠ .good v := by
      intro v
      split <;> simp
    refine ⟨hs.lose hbad fun r hr hh htag => absurd ⟨hh, ?_⟩ hk, hp.lose hbad hk⟩
    simp [Option.mem_def.1 hr, htag]

/-- In every run in which the downstream host does not lose its hold snapshot while the progress file still names it,
the hold snapshot has the content of the upstream snapshot at every moment. -/
theorem converged_of_keeps (h : Reach.Run (step u) Keeps Initial st) : Converged u st := by
  have hinv : Sound u st ∧ AtPhase u st st.phase := by
    refine h.invariant (I := fun s => Sound u s ∧ AtPhase u s s.phase) (fun s hi => ⟨sound_of_initial hi, ?_⟩) ?_
    · rw [hi.phase]
      trivial
    · exact fun s e s' hi hk hs => hi.1.step hi.2 hk hs
  intro t v hhold hsnap
  exact hinv.1.snaps t v (hinv.1.hold_even t hhold) hsnap

/-! ### Two runs -/

/-- A chunk of a downstream snapshot. -/
def State.chunk (st : State β) (t c : Nat) : Option β :=
  match st.snaps t with
  | .good v => some (v c)
  | _ => none

private theorem State.chunk_eq_some {x : β} (h : st.chunk t c = some x) : ∃ v, st.snaps t = .good v ∧ v c = x := by
  unfold chunk at h
  cases hs : st.snaps t with
  | good v => exact ⟨v, rfl, by simpa [hs] using h⟩
  | absent => simp [hs] at h
  | squashed => simp [hs] at h

/-- Two chunks, both written before every snapshot. -/
def busy : Upstream Nat where
  chunks := 2
  content t _ := t / 2
  written t _ := t % 2 == 0
  unwritten t c h := by simp at h; omega

/-- Nothing is replicated yet. -/
def fresh : State Nat := ⟨fun _ => true, none, 0, fun _ => 0, fun _ => .absent, none, none, .idle⟩

private theorem fresh_initial : Initial fresh := ⟨rfl, rfl, rfl, fun _ => rfl, rfl⟩

/-- Snapshot 2 is sent as a full volume, and the hold file is moved. -/
def firstCycle : List Event :=
  [.begin 2, .receiveStart, .choose false false false, .transmit 2 (some (true, 1)) true, .create true, .drop true true,
    .setHold]

/-- The transfer of snapshot 4 is interrupted, and completed when snapshot 6 is to be sent. -/
def resumedEvents : List Event :=
  firstCycle ++ [.removeProgress, .setUpHold false,
    .begin 4, .receiveStart, .choose false false false, .transmit 1 (some (false, 0)) false,
    .begin 6, .receiveStart, .choose false false false, .transmit 2 (some (true, 1)) true, .create true,
    .drop true true, .setHold, .removeProgress, .setUpHold true]

/-- The state after them. -/
def resumedState : State Nat := (Reach.exec (step busy) Keeps fresh resumedEvents).getD fresh

private theorem fresh_run {ok : State Nat → Event → Prop} : Reach.Run
    (step busy) ok Initial fresh := .start fresh_initial

theorem resumedState_converged :
    (resumedState.hold = some 4 ∧ resumedState.chunk 4 0 = some 2) ∧ Converged busy resumedState :=
  ⟨by decide +kernel, converged_of_keeps (fresh_run.exec_getD resumedEvents)⟩

/-- The downstream host dies before it removes the progress file of snapshot 2, the transfer of snapshot 4 stops before
its first progress record, and then snapshot 2 is lost downstream.  The next attempt takes the old progress file for a
partial replication of snapshot 2 and completes that. -/
def staleEvents : List Event :=
  firstCycle ++ [.die, .begin 4, .receiveStart, .choose false false false, .transmit 1 none false, .loseDown 2 false,
    .begin 6, .receiveStart, .choose false false false, .transmit 2 (some (true, 1)) true, .create true]

/-- The state after them. -/
def staleState : State Nat := (Reach.exec (step busy) (fun _ _ => True) fresh staleEvents).getD fresh

theorem stale_record_resumed :
    Reach.Run (step busy) (fun _ _ => True) Initial staleState ∧ ¬Converged busy staleState := by
  refine ⟨fresh_run.exec_getD staleEvents, fun h => ?_⟩
  have hhold : staleState.hold = some 2 := by decide +kernel
  have hchunk : staleState.chunk 2 0 = some 2 := by decide +kernel
  obtain ⟨v, hv, hx⟩ := State.chunk_eq_some hchunk
  have hsame : v 0 = 1 := h 2 v hhold hv 0 (by decide)
  omega

end Ddsnap.Cycle
