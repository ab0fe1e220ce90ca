import Mathlib.Data.List.Forall2
import Mathlib.Data.List.Nodup
import Mathlib.Data.List.Infix
/-!
# Hash chains

Every entry of a chain names the digest of the one before it.  Two facts make a
chain tamper evident: an entry has only one place in a chain whose digests
differ (`prefix_eq_of_tip`), so a second chain made of entries that agree with
entries of the first follows it from the start (`exists_prefix_of_agree`).
-/

namespace Wcp.Base

variable {α β η : Type}

/-- Every entry names the digest of the one before it, the first one names `p`. -/
def Threads (prev : α → Option η) (digest : α → η) : Option η → List α → Prop
  | _, [] => True
  | p, e :: es => prev e = p ∧ Threads prev digest (some (digest e)) es

/-- The digest that the next entry has to name. -/
def tip (digest : α → η) (p : Option η) (es : List α) : Option η := (es.getLast?.map digest).or p

variable {prev : α → Option η} {digest : α → η}

theorem threads_cons {p : Option η} {e : α} {es : List α} : Threads prev digest p (e :: es) ↔
    prev e = p ∧ Threads prev digest (some (digest e)) es := Iff.rfl

theorem tip_cons (p : Option η) (e : α) (es : List α) :
    tip digest p (e :: es) = tip digest (some (digest e)) es := by
  unfold tip
  cases hlast : es.getLast? with
  | none => simp [List.getLast?_cons, hlast]
  | some x => simp [List.getLast?_cons, hlast]

@[simp] theorem tip_concat (p : Option η) (es : List α) (e : α) :
    tip digest p (es ++ [e]) = some (digest e) := by
  simp [tip]

theorem threads_append {p : Option η} {xs ys : List α} :
    Threads prev digest p (xs ++ ys) ↔
      Threads prev digest p xs ∧ Threads prev digest (tip digest p xs) ys := by
  induction xs generalizing p with
  | nil => simp [Threads, tip]
  | cons x xs ih => rw [List.cons_append, Threads, Threads, ih, tip_cons, and_assoc]

/-- A predecessor is the start of the chain or the digest of an entry. -/
theorem Threads.prev_eq {p : Option η} {es : List α} (h : Threads prev digest p es) {e : α}
    (he : e ∈ es) : prev e = p ∨ ∃ x ∈ es, prev e = some (digest x) := by
  induction es generalizing p with
  | nil => cases he
  | cons x xs ih =>
      rcases List.mem_cons.1 he with rfl | he
      · exact .inl h.1
      · right
        rcases ih h.2 he with hfirst | ⟨y, hy, hlater⟩
        · exact ⟨x, List.mem_cons_self, hfirst⟩
        · exact ⟨y, List.mem_cons_of_mem x hy, hlater⟩

/-- The predecessors are the start of the chain and the digests of all entries but the last. -/
theorem Threads.map_prev {p : Option η} {es : List α} (h : Threads prev digest p es) :
    es.map prev = (p :: es.map fun e => some (digest e)).take es.length := by
  induction es generalizing p with
  | nil => rfl
  | cons e es ih =>
      rw [List.map_cons, h.1, ih h.2, List.map_cons, List.length_cons, List.take_succ_cons]

theorem Threads.nodup_prev {es : List α} (h : Threads prev digest none es)
    (hnodup : (es.map digest).Nodup) : (es.map prev).Nodup := by
  have hall : (none :: es.map fun e => some (digest e)).Nodup := by
    rw [List.nodup_cons]
    refine ⟨by simp, ?_⟩
    have hsome := hnodup.map fun _ _ h => Option.some.inj h
    rwa [List.map_map] at hsome
  rw [h.map_prev]
  exact hall.sublist (List.take_sublist _ _)

theorem Threads.prev_mid {p : Option η} {xs ys : List α} {y : α}
    (h : Threads prev digest p (xs ++ y :: ys)) : prev y = tip digest p xs :=
  (threads_append.1 h).2.1

theorem Threads.not_without {xs ys : List α} {x y : α}
    (h : Threads prev digest none (xs ++ x :: y :: ys))
    (hnodup : ((xs ++ x :: y :: ys).map digest).Nodup) :
    ¬ Threads prev digest none (xs ++ y :: ys) := by
  intro hwithout
  have hnamed : prev y = some (digest x) := (threads_append.1 h).2.2.1
  have htip : tip digest none xs = some (digest x) := hwithout.prev_mid.symm.trans hnamed
  rw [tip, Option.or_none, Option.map_eq_some_iff] at htip
  obtain ⟨z, hz, hsame⟩ := htip
  rw [List.map_append, List.nodup_append'] at hnodup
  exact hnodup.2.2 (List.mem_map_of_mem (List.mem_of_getLast? hz)) (by simp [hsame])

/-- With another digest for an entry that has a successor, the entries are no chain. -/
theorem Threads.not_altered {p : Option η} {xs ys : List α} {x x' y : α}
    (h : Threads prev digest p (xs ++ x :: y :: ys)) (hne : digest x' ≠ digest x) :
    ¬ Threads prev digest p (xs ++ x' :: y :: ys) := by
  intro haltered
  have hnamed : prev y = some (digest x) := (threads_append.1 h).2.2.1
  have hnamed' : prev y = some (digest x') := (threads_append.1 haltered).2.2.1
  exact hne (Option.some.inj (hnamed'.symm.trans hnamed))

theorem prefix_eq_of_tip {hs xs ys : List α} (hnodup : (hs.map digest).Nodup)
    (hxs : xs <+: hs) (hys : ys <+: hs) (h : tip digest none xs = tip digest none ys) :
    xs = ys := by
  have hindex : ∀ zs : List α, ∀ z, zs ++ [z] <+: hs →
      (hs.map digest)[zs.length]? = some (digest z) := by
    rintro zs z ⟨rest, rfl⟩
    simp
  rcases List.eq_nil_or_concat xs with rfl | ⟨xs, x, rfl⟩ <;>
    rcases List.eq_nil_or_concat ys with rfl | ⟨ys, y, rfl⟩
  · rfl
  · simp [tip] at h
  · simp [tip] at h
  · rw [List.concat_eq_append] at hxs hys h ⊢
    rw [List.concat_eq_append] at h ⊢
    have hdigest : digest x = digest y := by simpa using h
    have hx := hindex xs x hxs
    have hy := hindex ys y hys
    have hlength : xs.length = ys.length := by
      refine (List.getElem?_inj ?_ hnodup).1 (by rw [hx, hy, hdigest])
      exact (List.getElem?_eq_some_iff.1 hx).1
    refine (List.prefix_of_prefix_length_le hxs hys ?_).eq_of_length ?_
    · simp [hlength]
    · simp [hlength]

/-- Chains that end in the same digest agree from the end to the start, where a digest fixes an
entry up to `R` and its predecessor. -/
theorem Threads.forall₂_of_tip {R : α → α → Prop} {xs ys : List α}
    (hxs : Threads prev digest none xs) (hys : Threads prev digest none ys)
    (hfix : ∀ x ∈ xs, ∀ y ∈ ys, digest x = digest y → R x y ∧ prev x = prev y)
    (htip : tip digest none xs = tip digest none ys) : List.Forall₂ R xs ys := by
  -- the induction is on the first chain from its end
  induction xs using List.reverseRecOn generalizing ys with
  | nil =>
      rcases List.eq_nil_or_concat ys with rfl | ⟨ys, y, rfl⟩
      · exact .nil
      · simp [tip] at htip
  | append_singleton xs x ih =>
      rcases List.eq_nil_or_concat ys with rfl | ⟨ys, y, rfl⟩
      · simp [tip] at htip
      · rw [List.concat_eq_append] at hys hfix htip ⊢
        obtain ⟨hxs, hx, -⟩ := threads_append.1 hxs
        obtain ⟨hys, hy, -⟩ := threads_append.1 hys
        have hdigest : digest x = digest y := by simpa using htip
        obtain ⟨hxy, hprev⟩ := hfix x (by simp) y (by simp) hdigest
        have hbefore : List.Forall₂ R xs ys := by
          refine ih hxs hys ?_ (hx.symm.trans (hprev.trans hy))
          exact fun a ha b hb => hfix a (List.mem_append_left _ ha) b (List.mem_append_left _ hb)
        exact List.rel_append hbefore (.cons hxy .nil)

/-- The entry of a chain that names the tip of a prefix comes right after it. -/
theorem Threads.next {hs done rest : List α} (h : Threads prev digest none hs)
    (hnodup : (hs.map digest).Nodup) (hsplit : hs = done ++ rest) {e : α} (he : e ∈ hs)
    (hprev : prev e = tip digest none done) : ∃ later, rest = e :: later := by
  obtain ⟨before, later, hbefore⟩ := List.append_of_mem he
  have hthreads := (threads_append.1 (hbefore ▸ h)).2
  have hsame : before = done := by
    refine prefix_eq_of_tip hnodup ⟨e :: later, hbefore.symm⟩ ⟨rest, hsplit.symm⟩ ?_
    rw [← hthreads.1, hprev]
  refine ⟨later, ?_⟩
  rw [hsplit, hsame] at hbefore
  exact List.append_cancel_left hbefore

/-- A second chain whose entries agree with entries of the first follows it from its start. -/
theorem exists_prefix_of_agree {prev' : β → Option η} {digest' : β → η} {R : β → α → Prop}
    {hs : List α} {rs : List β} (h : Threads prev digest none hs)
    (hnodup : (hs.map digest).Nodup) (hrs : Threads prev' digest' none rs)
    (hagree : ∀ r ∈ rs, ∃ e ∈ hs, R r e) (hprev : ∀ r e, R r e → prev' r = prev e)
    (hdigest : ∀ r e, R r e → digest' r = digest e) :
    ∃ p, p <+: hs ∧ List.Forall₂ R rs p := by
  -- the induction is on the entries still to be matched, past a prefix that is
  have hfrom : ∀ rs : List β, ∀ done rest : List α, hs = done ++ rest →
      Threads prev' digest' (tip digest none done) rs → (∀ r ∈ rs, ∃ e ∈ hs, R r e) →
      ∃ p, p <+: rest ∧ List.Forall₂ R rs p := by
    intro rs
    induction rs with
    | nil => exact fun _ rest _ _ _ => ⟨[], List.nil_prefix, .nil⟩
    | cons r rs ih =>
        intro done rest hsplit hthreads hmatch
        obtain ⟨e, he, hre⟩ := hmatch r List.mem_cons_self
        obtain ⟨later, rfl⟩ := h.next hnodup hsplit he (by rw [← hprev r e hre, hthreads.1])
        obtain ⟨p, hp, hforall⟩ := ih (done ++ [e]) later (by rw [hsplit]; simp)
          (by rw [tip_concat, ← hdigest r e hre]; exact hthreads.2)
          fun r' hr' => hmatch r' (List.mem_cons_of_mem r hr')
        exact ⟨e :: p, List.cons_prefix_cons.2 ⟨rfl, hp⟩, .cons hre hforall⟩
  exact hfrom rs [] hs rfl hrs hagree

theorem Threads.of_agree {prev' : β → Option η} {digest' : β → η} {R : β → α → Prop}
    {p : Option η} {es : List α} {rs : List β} (h : Threads prev digest p es)
    (hforall : List.Forall₂ R rs es) (hprev : ∀ r e, R r e → prev' r = prev e)
    (hdigest : ∀ r e, R r e → digest' r = digest e) : Threads prev' digest' p rs := by
  induction hforall generalizing p with
  | nil => trivial
  | cons hre _ ih => exact ⟨by rw [hprev _ _ hre, h.1], by rw [hdigest _ _ hre]; exact ih h.2⟩

end Wcp.Base
