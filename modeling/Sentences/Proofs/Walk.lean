import Sentences.Draws.Walk

/-!
# How walks end

* `andThen_eq_some_iff`, `map_eq_some_iff`, `concat_cons_eq_some_iff`: what a composed walk ends
  with is what its parts end with, and the positions between them;
* `fold_eq_map_concat`: values taken from step to step, and lists collected side by side;
* `Extends`: a walk that ends wherever another one does, and in the same way. Composed walks extend
  one another when their parts do, so more fuel in a part shows only where the part was spent;
* `Mirrors`: a walk that does what another one does, some draws later and with its failures put in
  other words. Composed walks mirror one another when their parts do.
-/

namespace Sentences.Walk

variable {ε α β σ : Type}

/-! ## 1. Composed walks -/

/-- One walk after another ends where the first one fails, or where the second one ends. -/
theorem andThen_eq_some_iff {w : Walk ε α} {next : α → Walk ε β} {pos stop : Nat}
    {r : Except ε β} :
    w.andThen next pos = some (r, stop) ↔
      (∃ e, w pos = some (.error e, stop) ∧ r = .error e) ∨
        ∃ a mid, w pos = some (.ok a, mid) ∧ next a mid = some (r, stop) := by
  unfold andThen
  rcases h : w pos with _ | ⟨e | a, mid⟩
  · simp
  · simp only [Option.some.injEq, Prod.mk.injEq, Except.error.injEq, reduceCtorEq, false_and,
      exists_false, or_false]
    constructor
    · rintro ⟨rfl, rfl⟩
      exact ⟨e, ⟨rfl, rfl⟩, rfl⟩
    · rintro ⟨e', ⟨rfl, rfl⟩, rfl⟩
      exact ⟨rfl, rfl⟩
  · simp only [Option.some.injEq, Prod.mk.injEq, Except.ok.injEq, reduceCtorEq, false_and,
      exists_false, false_or]
    constructor
    · intro hn
      exact ⟨a, mid, ⟨rfl, rfl⟩, hn⟩
    · rintro ⟨a', mid', ⟨rfl, rfl⟩, hn⟩
      exact hn

/-- A walk with its value changed ends where the walk does. -/
theorem map_eq_some_iff {w : Walk ε α} {f : α → β} {pos stop : Nat} {r : Except ε β} :
    w.map f pos = some (r, stop) ↔ ∃ r', w pos = some (r', stop) ∧ r = r'.map f := by
  unfold map
  rw [andThen_eq_some_iff]
  constructor
  · rintro (⟨e, hw, rfl⟩ | ⟨a, mid, hw, hd⟩)
    · exact ⟨.error e, hw, rfl⟩
    · obtain ⟨rfl, rfl⟩ : Except.ok (f a) = r ∧ mid = stop := by simpa [done] using hd
      exact ⟨.ok a, hw, rfl⟩
  · rintro ⟨e | a, hw, rfl⟩
    · exact .inl ⟨e, hw, rfl⟩
    · exact .inr ⟨a, stop, hw, rfl⟩

/-- The walks for a list end where the one for its head fails, or where those for its tail end. -/
theorem concat_cons_eq_some_iff {w : σ → Walk ε (List α)} {s : σ} {rest : List σ} {pos stop : Nat}
    {r : Except ε (List α)} :
    concat w (s :: rest) pos = some (r, stop) ↔
      (∃ e, w s pos = some (.error e, stop) ∧ r = .error e) ∨
        ∃ xs mid r', w s pos = some (.ok xs, mid) ∧ concat w rest mid = some (r', stop) ∧
          r = r'.map (xs ++ ·) := by
  show (w s).andThen (fun xs => (concat w rest).map (xs ++ ·)) pos = some (r, stop) ↔ _
  rw [andThen_eq_some_iff]
  simp only [map_eq_some_iff, exists_and_left]

/-- To change the value of a walk and go on from it is to go on from the changed value. -/
theorem map_andThen {γ : Type} (w : Walk ε α) (f : α → β) (next : β → Walk ε γ) :
    (w.map f).andThen next = w.andThen fun a => next (f a) := by
  funext pos
  unfold map andThen
  rcases w pos with _ | ⟨e | a, stop⟩
  · rfl
  · rfl
  · rfl

theorem andThen_map {γ : Type} (w : Walk ε α) (next : α → Walk ε β) (f : β → γ) :
    (w.andThen next).map f = w.andThen fun a => (next a).map f := by
  funext pos
  unfold map andThen
  rcases w pos with _ | ⟨e | a, stop⟩
  · rfl
  · rfl
  · rfl

theorem map_map {γ : Type} (w : Walk ε α) (f : α → β) (f' : β → γ) :
    (w.map f).map f' = w.map fun a => f' (f a) :=
  map_andThen w f fun b => done (f' b)

/-- **A walk that goes on from value to value is one that collects a list**, if every step takes up
    the list of its element and lists can be taken up one after another. -/
theorem fold_eq_map_concat {w : σ → β → Walk ε β} {v : σ → Walk ε (List α)} {f : β → List α → β}
    (hnil : ∀ b, f b [] = b) (happend : ∀ b xs ys, f (f b xs) ys = f b (xs ++ ys)) {ss : List σ}
    (h : ∀ s ∈ ss, ∀ b, w s b = (v s).map (f b)) (b : β) :
    fold w ss b = (concat v ss).map (f b) := by
  induction ss generalizing b with
  | nil => exact congrArg done (hnil b).symm
  | cons s rest ih =>
    obtain ⟨hs, hrest⟩ := List.forall_mem_cons.1 h
    show (w s b).andThen (fold w rest) =
      ((v s).andThen fun xs => (concat v rest).map (xs ++ ·)).map (f b)
    rw [hs, map_andThen, andThen_map]
    refine congrArg _ (funext fun xs => ?_)
    rw [ih hrest, map_map]
    exact congrArg (map · (concat v rest)) (funext fun ys => happend b xs ys)

/-- The walks for a list of one element are the walk for that element. -/
theorem concat_singleton (w : σ → Walk ε (List α)) (s : σ) : concat w [s] = w s := by
  funext pos
  show (w s).andThen (fun xs => (done []).map (xs ++ ·)) pos = w s pos
  unfold map andThen done
  rcases w s pos with _ | ⟨e | xs, stop⟩
  · rfl
  · rfl
  · simp

/-! ## 2. Walks that extend others -/

/-- The second walk ends wherever the first one does, and in the same way. -/
def Extends (w v : Walk ε α) : Prop :=
  ∀ pos r, w pos = some r → v pos = some r

namespace Extends

theorem refl (w : Walk ε α) : Extends w w :=
  fun _ _ h => h

theorem trans {u v w : Walk ε α} (huv : Extends u v) (hvw : Extends v w) : Extends u w :=
  fun pos r h => hvw pos r (huv pos r h)

/-- A walk that more fuel extends ends in one way only, whatever the fuel. -/
theorem unique {w : Nat → Walk ε α} (h : ∀ fuel more, Extends (w fuel) (w (fuel + more)))
    {fuel more pos : Nat} {x y : Except ε α × Nat} (hx : w fuel pos = some x)
    (hy : w more pos = some y) : x = y := by
  have hsum := h fuel more _ _ hx
  have hsum' := h more fuel _ _ hy
  rw [Nat.add_comm, hsum] at hsum'
  exact Option.some.inj hsum'

theorem spent (w : Walk ε α) : Extends spent w :=
  fun _ _ h => nomatch h

theorem andThen {w v : Walk ε α} {next more : α → Walk ε β} (h : Extends w v)
    (hn : ∀ a, Extends (next a) (more a)) : Extends (w.andThen next) (v.andThen more) := by
  rintro pos ⟨r, stop⟩ he
  rw [andThen_eq_some_iff] at he ⊢
  rcases he with ⟨e, hw, hr⟩ | ⟨a, mid, hw, hr⟩
  · exact .inl ⟨e, h _ _ hw, hr⟩
  · exact .inr ⟨a, mid, h _ _ hw, hn a _ _ hr⟩

theorem map {w v : Walk ε α} (h : Extends w v) (f : α → β) : Extends (w.map f) (v.map f) :=
  h.andThen fun _ => refl _

theorem concat {w v : σ → Walk ε (List α)} (h : ∀ s, Extends (w s) (v s)) :
    ∀ ss : List σ, Extends (concat w ss) (concat v ss)
  | [] => refl _
  | s :: rest => (h s).andThen fun _ => (concat h rest).map _

end Extends

/-! ## 3. Walks that mirror others -/

/-- The same end `d` draws later, a failure put in other words. -/
def later {ε' : Type} (d : Nat) (f : ε → ε') (r : Except ε α × Nat) : Except ε' α × Nat :=
  (r.1.mapError f, r.2 + d)

/-- From a position `d` draws later on, the second walk does what the first one does. -/
def Mirrors {ε' : Type} (d : Nat) (f : ε → ε') (w : Walk ε α) (v : Walk ε' α) : Prop :=
  ∀ pos, v (pos + d) = (w pos).map (later d f)

namespace Mirrors

variable {ε' : Type} {d : Nat} {f : ε → ε'}

theorem done (a : α) : Mirrors d f (done a) (done a) :=
  fun _ => rfl

theorem fail (e : ε) : Mirrors d f (fail e : Walk ε α) (fail (f e)) :=
  fun _ => rfl

theorem spent : Mirrors d f (spent : Walk ε α) spent :=
  fun _ => rfl

theorem andThen {w : Walk ε α} {v : Walk ε' α} {next : α → Walk ε β} {more : α → Walk ε' β}
    (h : Mirrors d f w v) (hn : ∀ a, Mirrors d f (next a) (more a)) :
    Mirrors d f (w.andThen next) (v.andThen more) := by
  intro pos
  unfold Walk.andThen
  rw [h]
  rcases w pos with _ | ⟨e | a, stop⟩
  · rfl
  · rfl
  · exact hn a stop

theorem map {w : Walk ε α} {v : Walk ε' α} (h : Mirrors d f w v) (f' : α → β) :
    Mirrors d f (w.map f') (v.map f') :=
  h.andThen fun a => done (f' a)

theorem concat {w : σ → Walk ε (List α)} {v : σ → Walk ε' (List α)} {ss : List σ}
    (h : ∀ s ∈ ss, Mirrors d f (w s) (v s)) : Mirrors d f (concat w ss) (concat v ss) := by
  induction ss with
  | nil => exact done []
  | cons s rest ih =>
    obtain ⟨hs, hrest⟩ := List.forall_mem_cons.1 h
    exact hs.andThen fun xs => (ih hrest).map (xs ++ ·)

/-- Without a delay and with the same words, it is the same walk. -/
theorem eq {w v : Walk ε α} (h : Mirrors 0 id w v) : v = w := by
  funext pos
  have hsame : later (α := α) 0 (id : ε → ε) = id := by
    funext r
    rcases r with ⟨e | a, stop⟩
    · rfl
    · rfl
  have hpos := h pos
  rwa [hsame, Option.map_id] at hpos

end Mirrors

end Sentences.Walk
