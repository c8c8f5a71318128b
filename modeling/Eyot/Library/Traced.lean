import Mathlib.Data.List.Forall2
import Mathlib.Data.List.Infix

/-! Computations that leave a log behind, also where they end in an error. -/

universe u v

namespace Eyot

structure Traced (ω : Type u) (ε : Type v) (α : Type) where
  log : List ω
  result : Except ε α

namespace Traced

variable {ω : Type u} {ε : Type v} {α β : Type}

def bind (m : Traced ω ε α) (f : α → Traced ω ε β) : Traced ω ε β :=
  match m.result with
  | .ok a => ⟨m.log ++ (f a).log, (f a).result⟩
  | .error e => ⟨m.log, .error e⟩

instance : Monad (Traced ω ε) where
  pure a := ⟨[], .ok a⟩
  bind := bind

def tell (w : ω) : Traced ω ε Unit := ⟨[w], .ok ()⟩

def throw (e : ε) : Traced ω ε α := ⟨[], .error e⟩

def ofExcept (r : Except ε α) : Traced ω ε α := ⟨[], r⟩

/-- The results for a list, one after the other; the first error ends it. -/
def collect (f : α → Traced ω ε β) : List α → Traced ω ε (List β)
  | [] => pure []
  | a :: l => do
    let b ← f a
    let bs ← collect f l
    return b :: bs

/-- The results for a list, with a state that is handed on from item to item. -/
def mapAccum {σ : Type} (f : σ → α → Traced ω ε (β × σ)) : σ → List α → Traced ω ε (List β)
  | _, [] => pure []
  | s, a :: l => do
    let (b, s') ← f s a
    let bs ← mapAccum f s' l
    return b :: bs

/-- Every entry of the log satisfies `p`. -/
def Emits (p : ω → Prop) (m : Traced ω ε α) : Prop := ∀ w ∈ m.log, p w

/-- The log is a beginning of `full`, and all of it if the computation returns. -/
def Upto (full : List ω) (m : Traced ω ε α) : Prop :=
  m.log <+: full ∧ ∀ a, m.result = .ok a → m.log = full

/-- A computation that returns has logged an entry with `p`. -/
def Logs (p : ω → Prop) (m : Traced ω ε α) : Prop := ∀ a, m.result = .ok a → ∃ w ∈ m.log, p w

/-- Every value the computation returns satisfies `q`. -/
def Returns (q : α → Prop) (m : Traced ω ε α) : Prop := ∀ a, m.result = .ok a → q a

theorem bind_ok {m : Traced ω ε α} {a : α} (h : m.result = .ok a) (f : α → Traced ω ε β) :
    m >>= f = ⟨m.log ++ (f a).log, (f a).result⟩ := by
  change bind m f = _
  rw [bind, h]

theorem bind_error {m : Traced ω ε α} {e : ε} (h : m.result = .error e) (f : α → Traced ω ε β) :
    m >>= f = ⟨m.log, .error e⟩ := by
  change bind m f = _
  rw [bind, h]

@[simp] theorem ofExcept_ok_bind (a : α) (f : α → Traced ω ε β) :
    (ofExcept (.ok a) : Traced ω ε α) >>= f = f a := by
  rw [bind_ok (a := a) rfl]
  rfl

@[simp] theorem ofExcept_error_bind (e : ε) (f : α → Traced ω ε β) :
    (ofExcept (.error e) : Traced ω ε α) >>= f = throw e :=
  bind_error rfl f

theorem bind_eq_ok {m : Traced ω ε α} {f : α → Traced ω ε β} {b : β}
    (h : (m >>= f).result = .ok b) : ∃ a, m.result = .ok a ∧ (f a).result = .ok b := by
  cases hm : m.result with
  | ok a =>
    rw [bind_ok hm] at h
    exact ⟨a, rfl, h⟩
  | error e =>
    rw [bind_error hm] at h
    cases h

/-! Rules for what a log holds. -/

variable {p p' : ω → Prop} {q : α → Prop} {r : β → Prop} {full full' : List ω}

theorem Emits.mono (hp : ∀ w, p w → p' w) {m : Traced ω ε α} (h : Emits p m) : Emits p' m :=
  fun w hw => hp w (h w hw)

theorem emits_pure (a : α) : Emits p (pure a : Traced ω ε α) := by
  intro w hw
  cases hw

theorem emits_throw (e : ε) : Emits p (throw e : Traced ω ε α) := by
  intro w hw
  cases hw

theorem emits_ofExcept (r : Except ε α) : Emits p (ofExcept r : Traced ω ε α) := by
  intro w hw
  cases hw

theorem emits_tell {w : ω} (h : p w) : Emits p (tell w : Traced ω ε Unit) := by
  intro v hv
  rwa [List.mem_singleton.mp hv]

theorem Emits.bind {m : Traced ω ε α} (hm : Emits p m) {f : α → Traced ω ε β}
    (hf : ∀ a, m.result = .ok a → Emits p (f a)) : Emits p (m >>= f) := by
  intro w hw
  cases h : m.result with
  | ok a =>
    rw [bind_ok h, List.mem_append] at hw
    exact hw.elim (hm w) (hf a h w)
  | error e =>
    rw [bind_error h] at hw
    exact hm w hw

theorem Emits.collect {f : α → Traced ω ε β} {l : List α} (h : ∀ a ∈ l, Emits p (f a)) :
    Emits p (collect f l) := by
  induction l with
  | nil => exact emits_pure []
  | cons a l ih =>
    rw [List.forall_mem_cons] at h
    exact h.1.bind fun b _ => (ih h.2).bind fun bs _ => emits_pure _

theorem mem_log_bind {m : Traced ω ε α} {a : α} (h : m.result = .ok a) {f : α → Traced ω ε β}
    {w : ω} : w ∈ (m >>= f).log ↔ w ∈ m.log ∨ w ∈ (f a).log := by
  rw [bind_ok h, List.mem_append]

/-- Each result comes from an item whose log is part of the whole log. -/
theorem mem_of_collect {f : α → Traced ω ε β} {l : List α} {bs : List β}
    (h : (Traced.collect f l).result = .ok bs) {b : β} (hb : b ∈ bs) :
    ∃ a ∈ l, (f a).result = .ok b ∧ ∀ w ∈ (f a).log, w ∈ (Traced.collect f l).log := by
  induction l generalizing bs with
  | nil =>
    obtain rfl : [] = bs := Except.ok.inj h
    cases hb
  | cons a l ih =>
    obtain ⟨b', hb', h⟩ := bind_eq_ok h
    obtain ⟨bs', hbs', h⟩ := bind_eq_ok h
    obtain rfl : b' :: bs' = bs := Except.ok.inj h
    have hmem : ∀ w, w ∈ (Traced.collect f (a :: l)).log ↔
        w ∈ (f a).log ∨ w ∈ (Traced.collect f l).log ∨ w ∈ ([] : List ω) := by
      intro w
      rw [Traced.collect, mem_log_bind hb', mem_log_bind hbs']
      rfl
    rcases List.mem_cons.mp hb with rfl | hb
    · exact ⟨a, List.mem_cons_self, hb', fun w hw => (hmem w).mpr (.inl hw)⟩
    · obtain ⟨c, hc, hres, hlog⟩ := ih hbs' hb
      exact ⟨c, List.mem_cons_of_mem a hc, hres, fun w hw => (hmem w).mpr (.inr (.inl (hlog w hw)))⟩

section MapAccum

variable {σ : Type} {f : σ → α → Traced ω ε (β × σ)}

theorem Emits.mapAccum {s : σ} {l : List α} (h : ∀ a ∈ l, ∀ s, Emits p (f s a)) :
    Emits p (Traced.mapAccum f s l) := by
  induction l generalizing s with
  | nil => exact emits_pure []
  | cons a l ih =>
    rw [List.forall_mem_cons] at h
    exact (h.1 s).bind fun _ _ => (ih h.2).bind fun _ _ => emits_pure _

/-- Each result comes from a step whose log is part of the whole log. -/
theorem forall₂_of_mapAccum {s : σ} {l : List α} {bs : List β}
    (h : (Traced.mapAccum f s l).result = .ok bs) :
    List.Forall₂ (fun a b => ∃ s₀ s₁, (f s₀ a).result = .ok (b, s₁) ∧
      ∀ w ∈ (f s₀ a).log, w ∈ (Traced.mapAccum f s l).log) l bs := by
  induction l generalizing s bs with
  | nil =>
    obtain rfl : [] = bs := Except.ok.inj h
    exact .nil
  | cons a l ih =>
    obtain ⟨⟨b, s₁⟩, hb, h⟩ := bind_eq_ok h
    obtain ⟨bs', hbs, h⟩ := bind_eq_ok h
    obtain rfl : b :: bs' = bs := Except.ok.inj h
    have hmem : ∀ w, w ∈ (Traced.mapAccum f s (a :: l)).log ↔
        w ∈ (f s a).log ∨ w ∈ (Traced.mapAccum f s₁ l).log ∨ w ∈ ([] : List ω) := by
      intro w
      rw [Traced.mapAccum, mem_log_bind hb, mem_log_bind hbs]
      rfl
    refine .cons ⟨s, s₁, hb, fun w hw => (hmem w).mpr (.inl hw)⟩ ?_
    refine (ih hbs).imp fun c d hstep => ?_
    obtain ⟨s₀, s₂, hres, hlog⟩ := hstep
    exact ⟨s₀, s₂, hres, fun w hw => (hmem w).mpr (.inr (.inl (hlog w hw)))⟩

end MapAccum

theorem exists_of_forall₂ {β : Type} {R S : α → β → Prop} {l : List α} {bs : List β}
    (hR : List.Forall₂ R l bs) (hS : List.Forall₂ S l bs) {a : α} (ha : a ∈ l) :
    ∃ b, R a b ∧ S a b := by
  induction hR with
  | nil => cases ha
  | cons hab _ ih =>
    cases hS with
    | cons hab' hS =>
      rcases List.mem_cons.mp ha with rfl | ha
      · exact ⟨_, hab, hab'⟩
      · exact ih hS ha

/-- The loop gets to an item, in the state it is in then. -/
inductive Reaches {σ : Type} (f : σ → α → Traced ω ε (β × σ)) : σ → List α → σ → α → Prop
  | head (s : σ) (a : α) (l : List α) : Reaches f s (a :: l) s a
  | tail {s s' s'' : σ} {a a' : α} {l : List α} {b : β} (h : (f s a).result = .ok (b, s'))
    (hr : Reaches f s' l s'' a') : Reaches f s (a :: l) s'' a'

def FailsWith (p : ω → Prop) (m : Traced ω ε α) : Prop :=
  ∀ e, m.result = .error e → ∀ w ∈ m.log, p w

theorem FailsWith.bind {m : Traced ω ε α} (hm : Emits p m) {f : α → Traced ω ε β}
    (hf : ∀ a, m.result = .ok a → FailsWith p (f a)) : FailsWith p (m >>= f) := by
  intro e he w hw
  cases h : m.result with
  | error e' =>
    rw [bind_error h] at hw
    exact hm w hw
  | ok a =>
    rw [bind_ok h] at he hw
    obtain hw | hw := List.mem_append.mp hw
    · exact hm w hw
    · exact hf a h e he w hw

/-! Rules for what is returned. -/

theorem returns_pure {a : α} (h : q a) : Returns q (pure a : Traced ω ε α) := by
  intro b hb
  obtain rfl : a = b := Except.ok.inj hb
  exact h

theorem Returns.bind {m : Traced ω ε α} {f : α → Traced ω ε β}
    (hf : ∀ a, m.result = .ok a → Returns r (f a)) : Returns r (m >>= f) := by
  intro b hb
  obtain ⟨a, ha, hb⟩ := bind_eq_ok hb
  exact hf a ha b hb

/-! Rules for the errors a computation can end in. -/

/-- Every error the computation ends in satisfies `p`. -/
def Raises (p : ε → Prop) (m : Traced ω ε α) : Prop := ∀ e, m.result = .error e → p e

variable {s : ε → Prop}

theorem raises_pure (a : α) : Raises s (pure a : Traced ω ε α) := by
  intro e h
  cases h

theorem raises_tell (w : ω) : Raises s (tell w : Traced ω ε Unit) := by
  intro e h
  cases h

theorem Raises.bind {m : Traced ω ε α} (hm : Raises s m) {f : α → Traced ω ε β}
    (hf : ∀ a, m.result = .ok a → Raises s (f a)) : Raises s (m >>= f) := by
  intro e he
  cases h : m.result with
  | ok a =>
    rw [bind_ok h] at he
    exact hf a h e he
  | error e' =>
    rw [bind_error h] at he
    obtain rfl := Except.error.inj he
    exact hm e' h

theorem Raises.collect {f : α → Traced ω ε β} {l : List α} (h : ∀ a ∈ l, Raises s (f a)) :
    Raises s (collect f l) := by
  induction l with
  | nil => exact raises_pure []
  | cons a l ih =>
    rw [List.forall_mem_cons] at h
    exact h.1.bind fun b _ => (ih h.2).bind fun bs _ => raises_pure _

/-! Rules for entries that a computation does not return without. -/

theorem logs_tell {w : ω} (h : p w) : Logs p (tell w : Traced ω ε Unit) :=
  fun _ _ => ⟨w, List.mem_singleton_self w, h⟩

theorem Logs.bind_left {m : Traced ω ε α} (hm : Logs p m) (f : α → Traced ω ε β) :
    Logs p (m >>= f) := by
  intro b hb
  obtain ⟨a, ha, -⟩ := bind_eq_ok hb
  obtain ⟨w, hw, hp⟩ := hm a ha
  exact ⟨w, (mem_log_bind ha).mpr (.inl hw), hp⟩

theorem Logs.bind_right {m : Traced ω ε α} {f : α → Traced ω ε β} (hf : ∀ a, Logs p (f a)) :
    Logs p (m >>= f) := by
  intro b hb
  obtain ⟨a, ha, hb⟩ := bind_eq_ok hb
  obtain ⟨w, hw, hp⟩ := hf a b hb
  exact ⟨w, (mem_log_bind ha).mpr (.inr hw), hp⟩

/-! Rules for logs that are known in advance. -/

theorem upto_pure (a : α) : Upto [] (pure a : Traced ω ε α) :=
  ⟨List.nil_prefix, fun _ _ => rfl⟩

theorem upto_ofExcept (e : Except ε α) : Upto [] (ofExcept e : Traced ω ε α) :=
  ⟨List.nil_prefix, fun _ _ => rfl⟩

theorem upto_tell (w : ω) : Upto [w] (tell w : Traced ω ε Unit) :=
  ⟨List.prefix_refl _, fun _ _ => rfl⟩

theorem Upto.bind {m : Traced ω ε α} (hm : Upto full m) {f : α → Traced ω ε β}
    (hf : ∀ a, m.result = .ok a → Upto full' (f a)) : Upto (full ++ full') (m >>= f) := by
  cases h : m.result with
  | ok a =>
    rw [bind_ok h, hm.2 a h]
    refine ⟨(List.prefix_append_right_inj _).mpr (hf a h).1, fun b hb => ?_⟩
    exact congrArg (full ++ ·) ((hf a h).2 b hb)
  | error e =>
    rw [bind_error h]
    exact ⟨hm.1.trans (List.prefix_append _ _), fun b hb => by cases hb⟩

theorem Upto.emits {m : Traced ω ε α} (h : Upto full m) (hp : ∀ w ∈ full, p w) : Emits p m :=
  fun w hw => hp w (h.1.subset hw)

/-- A first entry, and the rest. -/
theorem Upto.tell_bind {w : ω} {f : Unit → Traced ω ε β} (hf : Upto full (f ())) :
    Upto (w :: full) (tell w >>= f) :=
  (upto_tell w).bind fun _ _ => hf

/-- A step that logs nothing, and the rest. -/
theorem Upto.silent_bind {m : Traced ω ε α} (hm : Upto [] m) {f : α → Traced ω ε β}
    (hf : ∀ a, m.result = .ok a → Upto full (f a)) : Upto full (m >>= f) :=
  hm.bind hf

/-! A part of the log. -/

/-- The computation with the entries alone that `about` picks out. -/
def only (about : ω → Bool) (m : Traced ω ε α) : Traced ω ε α := ⟨m.log.filter about, m.result⟩

theorem only_bind (about : ω → Bool) (m : Traced ω ε α) (f : α → Traced ω ε β) :
    only about (m >>= f) = only about m >>= fun a => only about (f a) := by
  cases h : m.result with
  | ok a =>
    rw [bind_ok h, bind_ok (m := only about m) h, only, List.filter_append]
    rfl
  | error e =>
    rw [bind_error h, bind_error (m := only about m) h]
    rfl

theorem Emits.only_eq {about : ω → Bool} {m : Traced ω ε α}
    (h : Emits (fun w => about w = true) m) : only about m = m := by
  rw [only, List.filter_eq_self.mpr h]

theorem Emits.only_silent {about : ω → Bool} {m : Traced ω ε α}
    (h : Emits (fun w => about w = false) m) : Upto [] (only about m) := by
  have hnil : (only about m).log = [] := by
    rw [only, List.filter_eq_nil_iff]
    intro w hw
    rw [h w hw]
    exact Bool.false_ne_true
  rw [Upto, hnil]
  exact ⟨List.nil_prefix, fun _ _ => rfl⟩

/-- What a loop logs about one of its items is what it logs while it handles that item. -/
theorem Upto.filter_collect {f : α → Traced ω ε β} {l : List α} (hnodup : l.Nodup) {a : α}
    (ha : a ∈ l) {about : ω → Bool} (hself : Emits (fun w => about w = true) (f a))
    (hother : ∀ b ∈ l, b ≠ a → Emits (fun w => about w = false) (f b)) (h : Upto full (f a)) :
    Upto full (only about (Traced.collect f l)) := by
  induction l with
  | nil => cases ha
  | cons b l ih =>
    rw [List.nodup_cons] at hnodup
    rw [List.forall_mem_cons] at hother
    rw [Traced.collect, only_bind]
    by_cases hba : b = a
    · subst hba
      -- The item is here, and the rest of the loop is silent about it.
      have hrest : Emits (fun w => about w = false) (Traced.collect f l) :=
        Emits.collect fun c hc => hother.2 c hc fun hcb => hnodup.1 (hcb ▸ hc)
      rw [hself.only_eq, ← List.append_nil full]
      refine h.bind fun c _ => ?_
      rw [only_bind]
      exact hrest.only_silent.silent_bind fun cs _ => upto_pure (c :: cs)
    · have hmem : a ∈ l := (List.mem_cons.mp ha).resolve_left fun h => hba h.symm
      refine (hother.1 hba).only_silent.silent_bind fun c _ => ?_
      rw [only_bind, ← List.append_nil full]
      exact (ih hnodup.2 hmem hother.2).bind fun cs _ => upto_pure (c :: cs)

end Traced

end Eyot
