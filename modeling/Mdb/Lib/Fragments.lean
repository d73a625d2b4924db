import Mathlib

/-!
# Records in fragments

A record that does not fit is cut: a first fragment, some in the middle, a last one. A reader puts
the fragments together again; it forgets what it has of a record where something could not be read,
and skips fragments of a record whose start it has not seen.

* `Frag`, `Event`: a fragment, and what a reader meets; `assemble`: the records it returns;
  `quiet`: nothing was dropped on the way;
* `Cuts r fs`: the fragments `fs` are the record `r` cut up; `Tail r fs`: they are what follows a
  first fragment;
* **`assemble_cuts`**, `quiet_cuts`: records that were cut are put together again;
  **`assemble_cutOff`**: if the fragments end early, all records but those that have not ended are;
* `Loses fs es`: `es` is `fs` with some runs of it replaced by `bad`, none of them with a marked
  fragment; `Expects`: what a reader must return of the rest, and what it may;
  **`assemble_loses`**: a reader of what is left returns some of the records, in order, and nothing
  else, and all records whose fragments are marked.
-/

namespace Fragments

variable {α : Type}

/-- A fragment of a record. -/
inductive Frag (α : Type) where
  | full (p : List α)
  | first (p : List α)
  | middle (p : List α)
  | last (p : List α)

/-- What a reader meets: a fragment, something that could not be read, or the end. -/
inductive Event (α : Type) where
  | frag (f : Frag α)
  | bad
  | stop

open Frag Event

/-- The records a reader returns, with what it has of the record it is in. -/
def assemble : Option (List α) → List (Event α) → List (List α)
  | _, [] => []
  | _, .stop :: _ => []
  | _, .bad :: es => assemble none es
  | _, .frag (.full p) :: es => p :: assemble none es
  | _, .frag (.first p) :: es => assemble (some p) es
  | none, .frag (.middle _) :: es => assemble none es
  | some q, .frag (.middle p) :: es => assemble (some (q ++ p)) es
  | none, .frag (.last _) :: es => assemble none es
  | some q, .frag (.last p) :: es => (q ++ p) :: assemble none es

/-- Nothing that was read is dropped, and nothing could not be read. -/
def quiet : Option (List α) → List (Event α) → Bool
  | _, [] => true
  | _, .stop :: _ => false
  | _, .bad :: _ => false
  | none, .frag (.full _) :: es => quiet none es
  | some _, .frag (.full _) :: _ => false
  | none, .frag (.first p) :: es => quiet (some p) es
  | some _, .frag (.first _) :: _ => false
  | none, .frag (.middle _) :: _ => false
  | some q, .frag (.middle p) :: es => quiet (some (q ++ p)) es
  | none, .frag (.last _) :: _ => false
  | some _, .frag (.last _) :: es => quiet none es

/-! ## Cut records -/

/-- The fragments after the first, holding `r` together. -/
inductive Tail : List α → List (Frag α) → Prop
  | last (p : List α) : Tail p [.last p]
  | middle (p : List α) {r : List α} {fs : List (Frag α)} (h : Tail r fs) :
      Tail (p ++ r) (.middle p :: fs)

/-- The fragments of the record `r`. -/
inductive Cuts : List α → List (Frag α) → Prop
  | full (p : List α) : Cuts p [.full p]
  | first (p : List α) {r : List α} {fs : List (Frag α)} (h : Tail r fs) :
      Cuts (p ++ r) (.first p :: fs)

theorem assemble_tail {r : List α} {fs : List (Frag α)} (h : Tail r fs) :
    ∀ (q : List α) (es : List (Event α)),
      assemble (some q) (fs.map .frag ++ es) = (q ++ r) :: assemble none es := by
  induction h with
  | last p => exact fun _ _ => rfl
  | middle p _ ih =>
    intro q es
    rw [← List.append_assoc]
    exact ih (q ++ p) es

theorem assemble_cut {r : List α} {fs : List (Frag α)} (h : Cuts r fs) (es : List (Event α)) :
    assemble none (fs.map .frag ++ es) = r :: assemble none es := by
  cases h with
  | full => rfl
  | first p h => exact assemble_tail h p es

/-- **What was cut is put together again.** -/
theorem assemble_cuts {rs : List (List α)} {fss : List (List (Frag α))}
    (h : List.Forall₂ Cuts rs fss) (es : List (Event α)) :
    assemble none (fss.flatten.map .frag ++ es) = rs ++ assemble none es := by
  induction h with
  | nil => rfl
  | cons h _ ih =>
    rw [List.flatten_cons, List.map_append, List.append_assoc, assemble_cut h, ih, List.cons_append]

/-- Fragments after a first one, without the last. -/
theorem assemble_tail_cutOff {r : List α} {fs : List (Frag α)} (h : Tail r fs) :
    ∀ (q : List α) {gs : List (Frag α)}, gs <+: fs → gs ≠ fs →
      assemble (some q) (gs.map .frag) = [] ∧ quiet (some q) (gs.map .frag) = true := by
  induction h with
  | last p =>
    intro q gs hpre hne
    cases gs with
    | nil => exact ⟨rfl, rfl⟩
    | cons g gs =>
      obtain ⟨rfl, hgs⟩ := List.cons_prefix_cons.mp hpre
      exact absurd (by rw [List.prefix_nil.mp hgs]) hne
  | middle p _ ih =>
    intro q gs hpre hne
    cases gs with
    | nil => exact ⟨rfl, rfl⟩
    | cons g gs =>
      obtain ⟨rfl, hgs⟩ := List.cons_prefix_cons.mp hpre
      exact ih (q ++ p) hgs fun he => hne (by rw [he])

/-- A record that has not ended is not returned. -/
theorem assemble_cut_cutOff {r : List α} {fs gs : List (Frag α)} (h : Cuts r fs) (hpre : gs <+: fs)
    (hne : gs ≠ fs) : assemble none (gs.map .frag) = [] ∧ quiet none (gs.map .frag) = true := by
  cases gs with
  | nil => exact ⟨rfl, rfl⟩
  | cons g gs =>
    cases h with
    | full p =>
      obtain ⟨rfl, hgs⟩ := List.cons_prefix_cons.mp hpre
      exact absurd (by rw [List.prefix_nil.mp hgs]) hne
    | first p h =>
      obtain ⟨rfl, hgs⟩ := List.cons_prefix_cons.mp hpre
      exact assemble_tail_cutOff h p hgs fun he => hne (by rw [he])

theorem quiet_tail {r : List α} {fs : List (Frag α)} (h : Tail r fs) :
    ∀ (q : List α) (es : List (Event α)), quiet (some q) (fs.map .frag ++ es) = quiet none es := by
  induction h with
  | last p => exact fun _ _ => rfl
  | middle p _ ih => exact fun q es => ih (q ++ p) es

theorem quiet_cut {r : List α} {fs : List (Frag α)} (h : Cuts r fs) (es : List (Event α)) :
    quiet none (fs.map .frag ++ es) = quiet none es := by
  cases h with
  | full => rfl
  | first p h => exact quiet_tail h p es

theorem quiet_cuts {rs : List (List α)} {fss : List (List (Frag α))}
    (h : List.Forall₂ Cuts rs fss) (es : List (Event α)) :
    quiet none (fss.flatten.map .frag ++ es) = quiet none es := by
  induction h with
  | nil => rfl
  | cons h _ ih => rw [List.flatten_cons, List.map_append, List.append_assoc, quiet_cut h, ih]

/-- **If the fragments end early, the records that have ended are returned**, and nothing is
dropped. -/
theorem assemble_cutOff {rs : List (List α)} {fss : List (List (Frag α))}
    (h : List.Forall₂ Cuts rs fss) {gs : List (Frag α)} (hpre : gs <+: fss.flatten) :
    ∃ k ≤ rs.length, assemble none (gs.map .frag) = rs.take k ∧
      quiet none (gs.map .frag) = true := by
  induction h generalizing gs with
  | nil =>
    rw [List.prefix_nil.mp hpre]
    exact ⟨0, le_rfl, rfl, rfl⟩
  | @cons r fs rs fss hcut _ ih =>
    rw [List.flatten_cons] at hpre
    by_cases hfs : fs <+: gs
    · obtain ⟨gs, rfl⟩ := hfs
      obtain ⟨k, hk, ha, hq⟩ := ih ((List.prefix_append_right_inj fs).mp hpre)
      refine ⟨k + 1, Nat.succ_le_succ hk, ?_, ?_⟩
      · rw [List.map_append, assemble_cut hcut, ha, List.take_succ_cons]
      · rw [List.map_append, quiet_cut hcut, hq]
    · have hgs : gs <+: fs :=
        (List.prefix_or_prefix_of_prefix hpre (List.prefix_append _ _)).resolve_right hfs
      obtain ⟨ha, hq⟩ := assemble_cut_cutOff hcut hgs fun he => hfs (by rw [he])
      exact ⟨0, Nat.zero_le _, by rw [ha, List.take_zero], hq⟩

/-! ## Fragments that were lost -/

/-- Some runs of fragments are replaced by `bad`, but none that is marked. -/
inductive Loses : List (Frag α × Bool) → List (Event α) → Prop
  | nil : Loses [] []
  | keep (f : Frag α) (m : Bool) {fs : List (Frag α × Bool)} {es : List (Event α)} (h : Loses fs es) :
      Loses ((f, m) :: fs) (.frag f :: es)
  | lose {run : List (Frag α × Bool)} (hne : run ≠ []) (hrun : ∀ p ∈ run, p.2 = false)
      {fs : List (Frag α × Bool)} {es : List (Event α)} (h : Loses fs es) :
      Loses (run ++ fs) (.bad :: es)

theorem Loses.append {fs gs : List (Frag α × Bool)} {es es' : List (Event α)} (h : Loses fs es)
    (h' : Loses gs es') : Loses (fs ++ gs) (es ++ es') := by
  induction h with
  | nil => exact h'
  | keep f m _ ih => exact .keep f m ih
  | lose hne hrun _ ih =>
    rw [List.append_assoc]
    exact .lose hne hrun ih

theorem Loses.refl (fs : List (Frag α)) (m : Bool) : Loses (fs.map (·, m)) (fs.map .frag) := by
  induction fs with
  | nil => exact .nil
  | cons f fs ih => exact .keep f m ih

/-- The fragments are those of the records, one list for each. -/
abbrev CutAll (rs : List (List α)) (fss : List (List (Frag α × Bool))) : Prop :=
  List.Forall₂ (fun r fs => Cuts r (fs.map Prod.fst)) rs fss

/-- The records all of whose fragments are marked. -/
def kept : List (List α) → List (List (Frag α × Bool)) → List (List α)
  | r :: rs, fs :: fss => bif fs.all Prod.snd then r :: kept rs fss else kept rs fss
  | _, _ => []

theorem Tail.inv {r : List α} {f : Frag α} {fs : List (Frag α)} (h : Tail r (f :: fs)) :
    f = .last r ∧ fs = [] ∨ ∃ p r', f = .middle p ∧ r = p ++ r' ∧ Tail r' fs := by
  cases h with
  | last p => exact .inl ⟨rfl, rfl⟩
  | middle p h => exact .inr ⟨p, _, rfl, rfl, h⟩

theorem Cuts.inv {r : List α} {f : Frag α} {fs : List (Frag α)} (h : Cuts r (f :: fs)) :
    f = .full r ∧ fs = [] ∨ ∃ p r', f = .first p ∧ r = p ++ r' ∧ Tail r' fs := by
  cases h with
  | full p => exact .inl ⟨rfl, rfl⟩
  | first p h => exact .inr ⟨p, _, rfl, rfl, h⟩

/-- What the reader expects of the fragments it has not met: the records it must return, and those it
may return. It is between two records, in one, or in one whose start it has not seen. -/
inductive Expects : Option (List α) → List (Frag α × Bool) → List (List α) → List (List α) → Prop
  | whole {rs : List (List α)} {fss : List (List (Frag α × Bool))} (h : CutAll rs fss) :
      Expects none fss.flatten (kept rs fss) rs
  | inside (q : List α) {r : List α} {fs : List (Frag α × Bool)} (ht : Tail r (fs.map Prod.fst))
      {rs : List (List α)} {fss : List (List (Frag α × Bool))} (h : CutAll rs fss) :
      Expects (some q) (fs ++ fss.flatten)
        (bif fs.all Prod.snd then (q ++ r) :: kept rs fss else kept rs fss) ((q ++ r) :: rs)
  | missed {r : List α} {fs : List (Frag α × Bool)} (ht : Tail r (fs.map Prod.fst))
      {rs : List (List α)} {fss : List (List (Frag α × Bool))} (h : CutAll rs fss) :
      Expects none (fs ++ fss.flatten) (kept rs fss) rs

section Steps

variable {s : Option (List α)} {f : Frag α} {m : Bool} {fs : List (Frag α × Bool)}
  {lo hi : List (List α)}

theorem cond_sublist_cons (m : Bool) (r : List α) (l : List (List α)) :
    (bif m then r :: l else l).Sublist (r :: l) := by
  cases m with
  | false => exact List.sublist_cons_self _ _
  | true => exact List.Sublist.refl _

theorem cond_and_sublist (m n : Bool) (r : List α) (l : List (List α)) :
    (bif m && n then r :: l else l).Sublist (bif n then r :: l else l) := by
  cases m with
  | false =>
    cases n with
    | false => exact List.Sublist.refl _
    | true => exact List.sublist_cons_self _ _
  | true => exact List.Sublist.refl _

/-- The next fragment: what the reader returns and expects if it meets it, and what it expects if the
fragment is lost. -/
theorem Expects.next (h : Expects s ((f, m) :: fs) lo hi) :
    (∃ out s' lo' hi', (∀ es, assemble s (.frag f :: es) = out ++ assemble s' es) ∧
      Expects s' fs lo' hi' ∧ lo.Sublist (out ++ lo') ∧ (out ++ hi').Sublist hi) ∧
    (m = false → ∃ lo' hi', Expects none fs lo' hi' ∧ lo.Sublist lo' ∧ hi'.Sublist hi) := by
  generalize hgs : (f, m) :: fs = gs at h
  cases h with
  | whole h =>
    cases h with
    | nil => simp at hgs
    | @cons r cut rs fss hcut h =>
      cases cut with
      | nil => cases hcut
      | cons p cut =>
        obtain ⟨rfl, rfl⟩ := List.cons.inj hgs
        rcases hcut.inv with ⟨rfl, hnil⟩ | ⟨p, r', rfl, rfl, ht⟩
        · obtain rfl := List.map_eq_nil_iff.mp hnil
          refine ⟨⟨[r], none, _, _, fun _ => rfl, .whole h, ?_, List.Sublist.refl _⟩, ?_⟩
          · rw [kept, List.all_cons, List.all_nil, Bool.and_true]
            exact cond_sublist_cons m r _
          · rintro rfl
            exact ⟨_, _, .whole h, List.Sublist.refl _, List.sublist_cons_self _ _⟩
        · refine ⟨⟨[], some p, _, _, fun _ => rfl, .inside p ht h, ?_, List.Sublist.refl _⟩, ?_⟩
          · exact cond_and_sublist m _ _ _
          · rintro rfl
            exact ⟨_, _, .missed ht h, List.Sublist.refl _, List.sublist_cons_self _ _⟩
  | @inside q r cut hcut rs fss h =>
    cases cut with
    | nil => cases hcut
    | cons p cut =>
      obtain ⟨rfl, rfl⟩ := List.cons.inj hgs
      rcases hcut.inv with ⟨rfl, hnil⟩ | ⟨p, r', rfl, rfl, ht⟩
      · obtain rfl := List.map_eq_nil_iff.mp hnil
        refine ⟨⟨[q ++ r], none, _, _, fun _ => rfl, .whole h, ?_, List.Sublist.refl _⟩, ?_⟩
        · rw [List.all_cons, List.all_nil, Bool.and_true]
          exact cond_sublist_cons m _ _
        · rintro rfl
          exact ⟨_, _, .whole h, List.Sublist.refl _, List.sublist_cons_self _ _⟩
      · refine ⟨⟨[], some (q ++ p), _, _, fun _ => rfl, .inside (q ++ p) ht h, ?_, ?_⟩, ?_⟩
        · rw [← List.append_assoc]
          exact cond_and_sublist m _ _ _
        · rw [← List.append_assoc]
          exact List.Sublist.refl _
        · rintro rfl
          exact ⟨_, _, .missed ht h, List.Sublist.refl _, List.sublist_cons_self _ _⟩
  | @missed r cut hcut rs fss h =>
    cases cut with
    | nil => cases hcut
    | cons p cut =>
      obtain ⟨rfl, rfl⟩ := List.cons.inj hgs
      have hrest : Expects none (cut ++ fss.flatten) (kept hi fss) hi ∧
          ∀ es, assemble none (.frag f :: es) = assemble none es := by
        rcases hcut.inv with ⟨rfl, hnil⟩ | ⟨p, r', rfl, rfl, ht⟩
        · obtain rfl := List.map_eq_nil_iff.mp hnil
          exact ⟨.whole h, fun _ => rfl⟩
        · exact ⟨.missed ht h, fun _ => rfl⟩
      exact ⟨⟨[], none, _, _, hrest.2, hrest.1, List.Sublist.refl _, List.Sublist.refl _⟩,
        fun _ => ⟨_, _, hrest.1, List.Sublist.refl _, List.Sublist.refl _⟩⟩

theorem Expects.skips {run : List (Frag α × Bool)} (hne : run ≠ []) (hrun : ∀ p ∈ run, p.2 = false)
    (h : Expects s (run ++ fs) lo hi) :
    ∃ lo' hi', Expects none fs lo' hi' ∧ lo.Sublist lo' ∧ hi'.Sublist hi := by
  induction run generalizing s lo hi with
  | nil => exact absurd rfl hne
  | cons p run ih =>
    obtain ⟨f, m⟩ := p
    obtain rfl : m = false := hrun _ List.mem_cons_self
    obtain ⟨lo₁, hi₁, h₁, hlo₁, hhi₁⟩ := h.next.2 rfl
    cases run with
    | nil => exact ⟨lo₁, hi₁, h₁, hlo₁, hhi₁⟩
    | cons p run =>
      obtain ⟨lo₂, hi₂, h₂, hlo₂, hhi₂⟩ :=
        ih (List.cons_ne_nil _ _) (fun p hp => hrun p (List.mem_cons_of_mem _ hp)) h₁
      exact ⟨lo₂, hi₂, h₂, hlo₁.trans hlo₂, hhi₂.trans hhi₁⟩

theorem Expects.of_nil (h : Expects s [] lo hi) : lo = [] := by
  generalize hgs : ([] : List (Frag α × Bool)) = gs at h
  cases h with
  | whole h =>
    cases h with
    | nil => rfl
    | @cons r cut rs fss hcut h =>
      obtain rfl : cut = [] := (List.append_eq_nil_iff.mp hgs.symm).1
      cases hcut
  | inside q ht h =>
    rw [(List.append_eq_nil_iff.mp hgs.symm).1] at ht
    cases ht
  | missed ht h =>
    rw [(List.append_eq_nil_iff.mp hgs.symm).1] at ht
    cases ht

theorem Expects.assemble_loses {es : List (Event α)} (hl : Loses fs es) :
    ∀ {s : Option (List α)} {lo hi : List (List α)}, Expects s fs lo hi →
      lo.Sublist (assemble s es) ∧ (assemble s es).Sublist hi := by
  induction hl with
  | nil =>
    intro s lo hi h
    rw [h.of_nil]
    exact ⟨List.nil_sublist _, List.nil_sublist _⟩
  | @keep f m fs es _ ih =>
    intro s lo hi h
    obtain ⟨⟨out, s', lo', hi', hout, h', hlo, hhi⟩, -⟩ := h.next
    obtain ⟨hlo', hhi'⟩ := ih h'
    rw [hout]
    exact ⟨hlo.trans (hlo'.append_left out), (hhi'.append_left out).trans hhi⟩
  | lose hne hrun _ ih =>
    intro s lo hi h
    obtain ⟨lo', hi', h', hlo, hhi⟩ := h.skips hne hrun
    obtain ⟨hlo', hhi'⟩ := ih h'
    exact ⟨hlo.trans hlo', hhi'.trans hhi⟩

end Steps

/-- **A reader of what is left returns some of the records**, in order, and nothing else; of those
that have lost no fragment it returns all. -/
theorem assemble_loses {rs : List (List α)} {fss : List (List (Frag α × Bool))} (h : CutAll rs fss)
    {es : List (Event α)} (hl : Loses fss.flatten es) :
    (kept rs fss).Sublist (assemble none es) ∧ (assemble none es).Sublist rs :=
  (Expects.whole h).assemble_loses hl

end Fragments
