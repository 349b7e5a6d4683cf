import HealthRules.Field

/-!
# The grammar of tokens

`BodyPath.Written` and `Field.Written` say which text writes which path and which field, piece by
piece and without a reader's state. The readers accept exactly these texts, and read what they
write: `BodyPath.ofText?_eq_some_iff`, `Field.ofToken?_eq_some_iff`.
-/

namespace HealthRules

/-! ## Indices -/

namespace Number

theorem isDigit_of_natural? {cs : List Char} {n : Nat} (h : natural? cs = some n) :
    ∀ c ∈ cs, c.isDigit = true :=
  (natural?_eq_some_iff.mp h).2.1

/-- An index is one or more digits behind an optional plus, in the range of 64 bits. -/
theorem unsigned64?_eq_some_iff {cs : List Char} {n : Nat} :
    unsigned64? cs = some n ↔
      ∃ plus digits, cs = plus ++ digits ∧ (plus = [] ∨ plus = ['+']) ∧
        natural? digits = some n ∧ n ≤ maxUnsigned64 := by
  constructor
  · intro h
    unfold unsigned64? at h
    rw [Option.filter_eq_some_iff, decide_eq_true_iff] at h
    split at h
    · next rest => exact ⟨['+'], rest, rfl, .inr rfl, h⟩
    · exact ⟨[], cs, rfl, .inl rfl, h⟩
  · intro h
    obtain ⟨plus, digits, rfl, hplus, hrange⟩ := h
    rcases hplus with rfl | rfl
    · -- without a sign the first character is a digit
      have hdigits : ∀ rest, [] ++ digits ≠ '+' :: rest := by
        intro rest heq
        have hmem : '+' ∈ digits := by
          rw [← List.nil_append digits, heq]
          exact List.mem_cons_self
        exact absurd (isDigit_of_natural? hrange.1 '+' hmem) (by decide)
      unfold unsigned64?
      split
      · next rest heq => exact absurd heq (hdigits rest)
      · rw [Option.filter_eq_some_iff, decide_eq_true_iff]
        exact hrange
    · rw [List.singleton_append, unsigned64?, Option.filter_eq_some_iff, decide_eq_true_iff]
      exact hrange

/-- An index cannot hide the bracket that closes it. -/
theorem not_mem_of_unsigned64? {cs : List Char} {n : Nat} (h : unsigned64? cs = some n) :
    ']' ∉ cs := by
  obtain ⟨plus, digits, rfl, hplus, hn, -⟩ := unsigned64?_eq_some_iff.mp h
  rw [List.mem_append, not_or]
  constructor
  · rcases hplus with rfl | rfl <;> decide
  · intro hmem
    exact absurd (isDigit_of_natural? hn _ hmem) (by decide)

end Number

/-! ## Paths -/

/-- A text writes a step: `.key`, or `[index]` with an optional plus. -/
inductive Step.Written : List Char → Step → Prop where
  | key {name : List Char} (ne : name ≠ []) (chars : ∀ c ∈ name, BodyPath.isKeyChar c = true) :
      Step.Written ('.' :: name) (.key (String.ofList name))
  | index {plus digits : List Char} {n : Nat} (sign : plus = [] ∨ plus = ['+'])
      (value : Number.natural? digits = some n) (range : n ≤ Number.maxUnsigned64) :
      Step.Written ('[' :: (plus ++ digits) ++ [']']) (.index n)

/-- Neither a key nor an index has a space. -/
theorem Step.Written.space_not_mem {cs : List Char} {step : Step} (h : Step.Written cs step) :
    ' ' ∉ cs := by
  intro hmem
  cases h with
  | key _ chars =>
    rcases List.mem_cons.mp hmem with hdot | hname
    · exact absurd hdot (by decide)
    · exact absurd (chars ' ' hname) (by decide)
  | @index plus digits n sign value range =>
    rw [List.cons_append, List.mem_cons, List.mem_append, List.mem_append] at hmem
    rcases hmem with hopen | (hplus | hdigit) | hclose
    · exact absurd hopen (by decide)
    · rcases sign with rfl | rfl <;> exact absurd hplus (by decide)
    · exact absurd (Number.isDigit_of_natural? value ' ' hdigit) (by decide)
    · exact absurd hclose (by decide)

namespace BodyPath

/-- A text writes a path: its steps one behind the other. -/
inductive Written : List Char → BodyPath → Prop where
  | nil : Written [] []
  | cons {cs rest : List Char} {step : Step} {path : BodyPath} :
      Step.Written cs step → Written rest path → Written (cs ++ rest) (step :: path)

theorem Written.space_not_mem {cs : List Char} {path : BodyPath} (h : Written cs path) :
    ' ' ∉ cs := by
  induction h with
  | nil => exact List.not_mem_nil
  | cons hstep _ ih =>
    rw [List.mem_append, not_or]
    exact ⟨hstep.space_not_mem, ih⟩

/-- What was read of the step in which a reader stands. -/
def Place.text : Place → List Char
  | .between => []
  | .key name => '.' :: name
  | .index digits => '[' :: digits

/-- Whether a reader has read key characters only since a key began. -/
def Place.Clean : Place → Prop
  | .key name => ∀ c ∈ name, isKeyChar c = true
  | .between | .index _ => True

/-- A reader that stands anywhere has read, with what is left, the text of its path. -/
theorem written_of_steps? {place : Place} {cs : List Char} {path : BodyPath} (hp : place.Clean)
    (h : steps? place cs = some path) : Written (place.text ++ cs) path := by
  -- along the reader: a step is complete where its bracket closes or the next step begins
  fun_induction steps? place cs generalizing path with
  | case1 =>
    rw [Option.some.injEq] at h
    rw [← h]
    exact .nil
  | case2 cs ih => exact ih (fun c hc => absurd hc List.not_mem_nil) h
  | case3 cs ih => exact ih trivial h
  | case6 name hne =>
    rw [Option.some.injEq] at h
    rw [← h]
    exact .cons (.key hne hp) .nil
  | case8 name cs hne ih =>
    obtain ⟨rest, hrest, rfl⟩ := Option.map_eq_some_iff.mp h
    exact .cons (.key hne hp) (ih (fun c hc => absurd hc List.not_mem_nil) hrest)
  | case10 name cs hne ih =>
    obtain ⟨rest, hrest, rfl⟩ := Option.map_eq_some_iff.mp h
    exact .cons (.key hne hp) (ih trivial hrest)
  | case11 name c cs _ _ hc ih =>
    -- the key grows by a character, and what was read of it stays clean
    have hclean : (Place.key (name ++ [c])).Clean := by
      intro d hd
      rcases List.mem_append.mp hd with hd | hd
      · exact hp d hd
      · rw [List.mem_singleton.mp hd]
        exact hc
    have hw := ih hclean h
    rwa [Place.text, List.cons_append, List.append_assoc] at hw
  | case14 digits cs ih =>
    obtain ⟨n, hn, h⟩ := Option.bind_eq_some_iff.mp h
    obtain ⟨rest, hrest, rfl⟩ := Option.map_eq_some_iff.mp h
    obtain ⟨plus, ds, rfl, hsign, hvalue, hrange⟩ := Number.unsigned64?_eq_some_iff.mp hn
    have hw : Written (('[' :: (plus ++ ds) ++ [']']) ++ cs) (.index n :: rest) :=
      .cons (.index hsign hvalue hrange) (ih trivial hrest)
    rwa [List.append_assoc] at hw
  | case15 digits c cs _ ih =>
    -- inside brackets every character is kept; whether it is a digit shows at the end
    have hw := ih trivial h
    rwa [Place.text, List.cons_append, List.append_assoc] at hw
  | case4 | case5 | case7 | case9 | case12 | case13 => exact absurd h (by simp)

/-- A reader inside a key takes a key character. -/
theorem steps?_key_cons {name cs : List Char} {c : Char} (h : isKeyChar c = true) :
    steps? (.key name) (c :: cs) = steps? (.key (name ++ [c])) cs := by
  have hdot : c ≠ '.' := by
    intro hc
    rw [hc] at h
    exact absurd h (by decide)
  have hbracket : c ≠ '[' := by
    intro hc
    rw [hc] at h
    exact absurd h (by decide)
  simp only [steps?, if_pos h]

/-- A reader inside a key takes key characters as they come. -/
theorem steps?_key_append {name more : List Char} (rest : List Char)
    (h : ∀ c ∈ more, isKeyChar c = true) :
    steps? (.key name) (more ++ rest) = steps? (.key (name ++ more)) rest := by
  induction more generalizing name with
  | nil => rw [List.append_nil, List.nil_append]
  | cons c more ih =>
    rw [List.cons_append, steps?_key_cons (h c List.mem_cons_self),
      ih fun d hd => h d (List.mem_cons_of_mem c hd), List.append_assoc, List.singleton_append]

/-- A reader inside an index takes everything up to its bracket. -/
theorem steps?_index_append {digits more : List Char} (rest : List Char) (h : ']' ∉ more) :
    steps? (.index digits) (more ++ rest) = steps? (.index (digits ++ more)) rest := by
  induction more generalizing digits with
  | nil => rw [List.append_nil, List.nil_append]
  | cons c more ih =>
    rw [List.mem_cons, not_or] at h
    have hc : c ≠ ']' := fun hc => h.1 hc.symm
    have hstep : steps? (.index digits) (c :: (more ++ rest)) =
        steps? (.index (digits ++ [c])) (more ++ rest) := by
      simp only [steps?]
    rw [List.cons_append, hstep, ih h.2, List.append_assoc, List.singleton_append]

/-- A key ends where the text of the path behind it starts. -/
theorem steps?_key_of_written {name rest : List Char} {path : BodyPath} (hne : name ≠ [])
    (h : Written rest path) :
    steps? (.key name) rest = (steps? .between rest).map (.key (String.ofList name) :: ·) := by
  cases h with
  | nil => simp only [steps?, if_neg hne, Option.map_some]
  | cons hstep _ =>
    cases hstep with
    | key _ _ => simp only [List.cons_append, steps?, if_neg hne]
    | index _ _ _ => simp only [List.cons_append, steps?, if_neg hne]

/-- A path is read step by step, by induction on how it is written. -/
theorem ofText?_of_written {cs : List Char} {path : BodyPath} (h : Written cs path) :
    ofText? cs = some path := by
  unfold ofText?
  -- between two steps the reader keeps nothing, so each step is read on its own
  induction h with
  | nil => rw [steps?]
  | @cons _ rest _ path hstep hrest ih =>
    cases hstep with
    | @key name hne hchars =>
      rw [List.cons_append, steps?, steps?_key_append rest hchars, List.nil_append,
        steps?_key_of_written hne hrest, ih, Option.map_some]
    | @index plus digits n hsign hvalue hrange =>
      have hn : Number.unsigned64? (plus ++ digits) = some n :=
        Number.unsigned64?_eq_some_iff.mpr ⟨plus, digits, rfl, hsign, hvalue, hrange⟩
      rw [List.append_assoc, List.cons_append, steps?,
        steps?_index_append _ (Number.not_mem_of_unsigned64? hn), List.nil_append,
        List.singleton_append, steps?, hn, Option.bind_some, ih, Option.map_some]

/-- The reader of paths and their grammar agree. -/
theorem ofText?_eq_some_iff {cs : List Char} {path : BodyPath} :
    ofText? cs = some path ↔ Written cs path := by
  constructor
  · intro h
    have hclean : Place.between.Clean := trivial
    exact written_of_steps? hclean h
  · exact ofText?_of_written

end BodyPath

/-! ## Fields -/

namespace Field

/-- A text writes a field: a token of its own, or `[BODY]` and the text of a path. -/
inductive Written : List Char → Field → Prop where
  | named {token : String} {f : Field} (mem : (token, f) ∈ named) : Written token.toList f
  | body {cs : List Char} {path : BodyPath} (written : BodyPath.Written cs path) :
      Written (bodyToken.toList ++ cs) (.body path)

/-- What stands behind the token of the body is read as a path. -/
theorem ofToken?_body (path : List Char) :
    ofToken? (bodyToken.toList ++ path) = (BodyPath.ofText? path).map body := by
  unfold ofToken?
  rw [Text.after?_eq_some_iff.mpr rfl]

/-- A token with a field of its own is read as this field. -/
theorem ofToken?_of_mem_named {token : String} {f : Field} (h : (token, f) ∈ named) :
    ofToken? token.toList = some f := by
  have hall : ∀ entry ∈ named, ofToken? entry.1.toList = some entry.2 := by
    decide
  exact hall (token, f) h

theorem mem_named_of_lookup {token : String} {f : Field} (h : named.lookup token = some f) :
    (token, f) ∈ named := by
  obtain ⟨front, back, heq, -⟩ := List.lookup_eq_some_iff.mp h
  rw [heq]
  exact List.mem_append_right front List.mem_cons_self

/-- The reader of tokens and their grammar agree: a token has a field of its own, or is the body and
a path in it. -/
theorem ofToken?_eq_some_iff {cs : List Char} {f : Field} :
    ofToken? cs = some f ↔ Written cs f := by
  constructor
  · intro h
    unfold ofToken? at h
    split at h
    · next path hpath =>
      obtain ⟨steps, hsteps, rfl⟩ := Option.map_eq_some_iff.mp h
      rw [Text.after?_eq_some_iff.mp hpath]
      exact .body (BodyPath.ofText?_eq_some_iff.mp hsteps)
    · have hw := Written.named (mem_named_of_lookup h)
      rwa [String.toList_ofList] at hw
  · intro h
    cases h with
    | named hmem => exact ofToken?_of_mem_named hmem
    | body hpath =>
      rw [ofToken?_body, BodyPath.ofText?_eq_some_iff.mpr hpath]
      rfl

/-- Every token starts with an opening bracket. -/
theorem Written.head {cs : List Char} {f : Field} (h : Written cs f) : cs.head? = some '[' := by
  cases h with
  | @named token f hmem =>
    have hall : ∀ entry ∈ Field.named, entry.1.toList.head? = some '[' := by
      decide
    exact hall (token, f) hmem
  | body _ => rfl

/-- No token has a space in it. -/
theorem Written.space_not_mem {cs : List Char} {f : Field} (h : Written cs f) : ' ' ∉ cs := by
  cases h with
  | @named token f hmem =>
    have hall : ∀ entry ∈ Field.named, ' ' ∉ entry.1.toList := by
      decide
    exact hall (token, f) hmem
  | body hpath =>
    rw [List.mem_append, not_or]
    exact ⟨by decide, hpath.space_not_mem⟩

end Field
end HealthRules
