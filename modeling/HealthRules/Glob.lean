/-!
# Wildcard patterns

In a pattern `*` stands for any text, `?` for any one character and every other character for
itself. `Glob.Matches` is this rule. `Glob.isMatch` decides it by one run along pattern and text:
where a star was met the run may come back, and the star then stands for one character more. Only
the last star is remembered. A `Search` is a run in progress, `Search.next` one turn of it.
-/

namespace HealthRules.Glob

/-- A pattern matches a whole text. -/
inductive Matches : List Char → List Char → Prop where
  | nil : Matches [] []
  /-- A star stands for what comes before some rest of the text. -/
  | star {p rest t : List Char} : rest <:+ t → Matches p rest → Matches ('*' :: p) t
  | one {p t : List Char} (c : Char) : Matches p t → Matches ('?' :: p) (c :: t)
  | same {p t : List Char} (c : Char) : c ≠ '*' → c ≠ '?' → Matches p t → Matches (c :: p) (c :: t)

/-- Where a run can come back to: the pattern behind the last star, and the text in front of which
it was last tried. -/
structure Retry where
  pattern : List Char
  text : List Char

/-- A run has got from the last star to rests of its pattern and its text: past a pattern
without stars, and past as many characters of the text. -/
def Retry.Reaches (r : Retry) (p t : List Char) : Prop :=
  ∃ passed read : List Char, '*' ∉ passed ∧ passed.length = read.length ∧
    r.pattern = passed ++ p ∧ r.text = read ++ t

/-- A run in progress: what is left of pattern and text, and the last star. -/
structure Search where
  pattern : List Char
  text : List Char
  retry : Option Retry
  reaches : ∀ r ∈ retry, r.Reaches pattern text

namespace Search

theorem reaches_self (p t : List Char) : ∀ r ∈ some (Retry.mk p t), r.Reaches p t := by
  rintro r ⟨⟩
  exact ⟨[], [], List.not_mem_nil, rfl, rfl, rfl⟩

theorem reaches_tail {r : Retry} {x c : Char} {p t : List Char} (hx : x ≠ '*')
    (h : r.Reaches (x :: p) (c :: t)) : r.Reaches p t := by
  obtain ⟨passed, read, hstar, hlen, hp, ht⟩ := h
  refine ⟨passed ++ [x], read ++ [c], ?_, ?_, ?_, ?_⟩
  · simp [hstar, Ne.symm hx]
  · simp [hlen]
  · simp [hp]
  · simp [ht]

/-- A run at its start, where no star was met. -/
def start (p t : List Char) : Search where
  pattern := p
  text := t
  retry := none
  reaches := by simp

/-- A run right behind a star that was tried in front of a text. -/
def behindStar (p t : List Char) : Search where
  pattern := p
  text := t
  retry := some ⟨p, t⟩
  reaches := reaches_self p t

/-- Back to the last star, which then stands for one character more; without a star the run has
failed. -/
def goBack (s : Search) : Search ⊕ Bool :=
  match s.retry with
  | some ⟨p, _ :: t⟩ => .inl (behindStar p t)
  | _ => .inr false

/-- Going back takes one more character of the text behind the star. -/
theorem goBack_eq_inl {s s' : Search} (h : s.goBack = .inl s') :
    ∃ p d u, s.retry = some ⟨p, d :: u⟩ ∧ s' = behindStar p u := by
  unfold goBack at h
  split at h
  · next p d u hretry =>
    cases h
    exact ⟨p, d, u, hretry, rfl⟩
  · cases h

/-- One turn of a run: the run after it, or the answer. -/
def next : Search → Search ⊕ Bool
  | ⟨p, [], _, _⟩ => .inr (p.all (· == '*'))
  | s@⟨[], _ :: _, _, _⟩ => s.goBack
  | s@⟨x :: p, c :: t, retry, reaches⟩ =>
    if hx : x = '*' then .inl (behindStar p (c :: t))
    else if x = '?' ∨ x = c then
      .inl ⟨p, t, retry, fun r hr => reaches_tail hx (reaches r hr)⟩
    else s.goBack

/-- Decreases with every turn: how often the run can come back, each time with the whole pattern
behind the star in front of it, and what is left of the pattern. -/
def rank (s : Search) : Nat :=
  let r := s.retry.getD ⟨s.pattern, s.text⟩
  (r.text.length + 1) * (r.pattern.length + 1) + s.pattern.length

/-- What a turn that does not end the run does: it goes behind a star, it takes a character of the
text, or it goes back to the last star from a place where the pattern takes no character. -/
theorem next_cases {s s' : Search} (h : s.next = .inl s') :
    (∃ p c t, s.pattern = '*' :: p ∧ s.text = c :: t ∧ s' = behindStar p (c :: t)) ∨
    (∃ x p c t, x ≠ '*' ∧ (x = '?' ∨ x = c) ∧ s.pattern = x :: p ∧ s.text = c :: t ∧
      s'.pattern = p ∧ s'.text = t ∧ s'.retry = s.retry) ∨
    ∃ c t p d u, s.text = c :: t ∧ (∀ x ∈ s.pattern.head?, x ≠ '*' ∧ x ≠ '?' ∧ x ≠ c) ∧
      s.retry = some ⟨p, d :: u⟩ ∧ s' = behindStar p u := by
  -- the cases are those of `next`, in its order
  obtain ⟨pattern, text, retry, reaches⟩ := s
  cases text with
  | nil => simp [next] at h
  | cons c t =>
    cases pattern with
    | nil =>
      obtain ⟨p, d, u, hretry, rfl⟩ := goBack_eq_inl h
      exact .inr (.inr ⟨c, t, p, d, u, rfl, by simp, hretry, rfl⟩)
    | cons x p =>
      simp only [next] at h
      split at h
      · next hx =>
        cases h
        exact .inl ⟨p, c, t, congrArg (· :: p) hx, rfl, rfl⟩
      · next hx =>
        split at h
        · next hxc =>
          cases h
          exact .inr (.inl ⟨x, p, c, t, hx, hxc, rfl, rfl, rfl, rfl, rfl⟩)
        · next hxc =>
          obtain ⟨q, d, u, hretry, rfl⟩ := goBack_eq_inl h
          refine .inr (.inr ⟨c, t, q, d, u, rfl, ?_, hretry, rfl⟩)
          simpa [hx] using hxc

theorem rank_behindStar (p t : List Char) :
    (behindStar p t).rank = (t.length + 1) * (p.length + 1) + p.length := rfl

theorem rank_of_retry {s : Search} {r : Retry} (h : s.retry = some r) :
    s.rank = (r.text.length + 1) * (r.pattern.length + 1) + s.pattern.length := by
  rw [rank, h, Option.getD_some]

/-- Every turn that goes on lowers the rank, which is why the search ends. -/
theorem rank_next {s s' : Search} (h : s.next = .inl s') : s'.rank < s.rank := by
  rcases next_cases h with ⟨p, c, t, hp, ht, rfl⟩ | ⟨x, p, c, t, -, -, hp, ht, hp', ht', hretry⟩ |
    ⟨c, t, p, d, u, -, -, hretry, rfl⟩
  · -- behind a later star there is less of the pattern, and no more of the text
    have hlast : t.length + 1 ≤ (s.retry.getD ⟨s.pattern, s.text⟩).text.length ∧
        p.length + 1 ≤ (s.retry.getD ⟨s.pattern, s.text⟩).pattern.length := by
      cases hr : s.retry with
      | none => simp [hp, ht]
      | some r =>
        obtain ⟨passed, read, -, -, hpassed, hread⟩ := s.reaches r hr
        simp [hpassed, hread, hp, ht]
    have hmul := Nat.mul_le_mul (Nat.succ_le_succ hlast.1) (Nat.le_succ_of_le hlast.2)
    have hpattern : p.length < s.pattern.length := by simp [hp]
    rw [rank_behindStar, rank]
    exact Nat.add_lt_add_of_le_of_lt hmul hpattern
  · -- the last star stays, and there is one character less of the pattern
    cases hr : s.retry with
    | none =>
      have hmul := Nat.mul_le_mul (Nat.le_succ (t.length + 1)) (Nat.le_succ (p.length + 1))
      rw [rank, rank, hretry, hr, hp, hp', ht, ht']
      exact Nat.add_lt_add_of_le_of_lt hmul (Nat.lt_succ_self p.length)
    | some r =>
      rw [rank_of_retry hr, rank_of_retry (hretry.trans hr), hp, hp']
      exact Nat.add_lt_add_left (Nat.lt_succ_self p.length) _
  · -- the last star has one character less of the text in front of it
    have hmul : (u.length + 1 + 1) * (p.length + 1) =
        (u.length + 1) * (p.length + 1) + (p.length + 1) := Nat.succ_mul _ _
    rw [rank_behindStar, rank_of_retry hretry, List.length_cons, hmul]
    omega

/-- The answer at the end of a run. -/
def run (s : Search) : Bool :=
  match _h : s.next with
  | .inl s' => run s'
  | .inr answer => answer
termination_by s.rank
decreasing_by exact rank_next _h

end Search

/-- Whether a pattern matches a whole text. -/
def isMatch (p t : List Char) : Bool :=
  (Search.start p t).run

end HealthRules.Glob
