import Mathlib
import HealthRules.Proofs.Comparison.Operators
import HealthRules.Proofs.Number.Text
import HealthRules.Proofs.Result
import HealthRules.Proofs.Text.Occurrence

/-!
# Comparing addresses

Addresses are compared last, after durations, numbers and truth values. They are compared at all
because no text of an address is any of these: it has a colon, which none of the others has, or it
is made of digits and three points, of which a number has one at most and a duration none at its
end (`IpAddress.Shape`). So two addresses have no order (`Value.order?_of_address`), and are equal
if they are the same number of 32 or of 128 bits.
-/

namespace HealthRules

/-! ## Reading an address -/

namespace IpAddress

/-- An octet is written with digits alone and is below 256. -/
theorem octet?_eq_some {cs : List Char} {n : Nat} (h : octet? cs = some n) :
    (∀ c ∈ cs, c.isDigit = true) ∧ n < 256 := by
  unfold octet? at h
  rw [Option.ite_none_right_eq_some] at h
  obtain ⟨hnatural, hn⟩ := Option.filter_eq_some_iff.mp h.2
  exact ⟨(Number.natural?_eq_some_iff.mp hnatural).2.1, Nat.lt_succ_of_le (of_decide_eq_true hn)⟩

/-- An address of version 4 is four octets between points. -/
theorem exists_of_octets? {cs : List Char} {octets : List Nat} (h : octets? cs = some octets) :
    ∃ p q r s a b c d, cs = p ++ '.' :: (q ++ '.' :: (r ++ '.' :: s)) ∧ octets = [a, b, c, d] ∧
      octet? p = some a ∧ octet? q = some b ∧ octet? r = some c ∧ octet? s = some d := by
  obtain ⟨hmap, hlength⟩ := Option.filter_eq_some_iff.mp h
  have hparts := forall₂_of_mapM hmap
  obtain ⟨a, b, c, d, rfl⟩ := List.length_eq_four.mp (of_decide_eq_true hlength)
  obtain ⟨p, _, hp, hps, hsplit⟩ := List.forall₂_cons_right_iff.mp hparts
  obtain ⟨q, _, hq, hqs, rfl⟩ := List.forall₂_cons_right_iff.mp hps
  obtain ⟨r, _, hr, hrs, rfl⟩ := List.forall₂_cons_right_iff.mp hqs
  obtain ⟨s, _, hs, hend, rfl⟩ := List.forall₂_cons_right_iff.mp hrs
  rw [List.forall₂_nil_right_iff.mp hend] at hsplit
  refine ⟨p, q, r, s, a, b, c, d, ?_, rfl, hp, hq, hr, hs⟩
  have hwhole : ['.'].intercalate (cs.splitOn '.') = cs := List.intercalate_splitOn '.'
  rw [← hwhole, hsplit]
  simp [List.intercalate_cons_cons]

theorem bounds_of_octets? {cs : List Char} {octets : List Nat} (h : octets? cs = some octets) :
    octets.length = 4 ∧ ∀ n ∈ octets, n < 256 := by
  obtain ⟨_, _, _, _, a, b, c, d, -, rfl, ha, hb, hc, hd⟩ := exists_of_octets? h
  refine ⟨rfl, ?_⟩
  simp only [List.mem_cons, List.not_mem_nil, or_false]
  rintro n (rfl | rfl | rfl | rfl)
  · exact (octet?_eq_some ha).2
  · exact (octet?_eq_some hb).2
  · exact (octet?_eq_some hc).2
  · exact (octet?_eq_some hd).2

theorem hexDigit?_lt {c : Char} {d : Nat} (h : hexDigit? c = some d) : d < 16 := by
  unfold hexDigit? at h
  have hle : ∀ x y : Char, x ≤ y → x.toNat ≤ y.toNat := fun _ _ hxy => hxy
  split at h
  · next hdigit =>
    have hrange := Number.toNat_of_isDigit hdigit
    cases h
    omega
  · split at h
    · next hlower =>
      have hlast : c.toNat ≤ 102 := hle _ _ hlower.2
      cases h
      omega
    · rw [Option.ite_none_right_eq_some] at h
      have hlast : c.toNat ≤ 70 := hle _ _ h.1.2
      cases h.2
      omega

/-- Each further hexadecimal digit makes room for sixteen times as many numbers. -/
theorem foldlM_hexDigit?_lt {cs : List Char} {n m : Nat}
    (h : cs.foldlM (fun n c => (hexDigit? c).map (n * 16 + ·)) n = some m) :
    m < (n + 1) * 16 ^ cs.length := by
  induction cs generalizing n with
  | nil =>
    cases h
    simp
  | cons c cs ih =>
    rw [List.foldlM_cons] at h
    obtain ⟨k, hk, h⟩ := Option.bind_eq_some_iff.mp h
    obtain ⟨d, hd, rfl⟩ := Option.map_eq_some_iff.mp hk
    have hdigit := hexDigit?_lt hd
    calc m < (n * 16 + d + 1) * 16 ^ cs.length := ih h
      _ ≤ ((n + 1) * 16) * 16 ^ cs.length := Nat.mul_le_mul_right _ (by omega)
      _ = (n + 1) * 16 ^ (c :: cs).length := by rw [List.length_cons, Nat.mul_assoc, Nat.pow_succ']

/-- A group has at most four hexadecimal digits, and so sixteen bits. -/
theorem group?_lt {cs : List Char} {n : Nat} (h : group? cs = some n) : n < 65536 := by
  unfold group? at h
  rw [Option.ite_none_right_eq_some] at h
  have hlength : 16 ^ cs.length ≤ 16 ^ 4 := Nat.pow_le_pow_right (by decide) h.1.2
  have hlt := foldlM_hexDigit?_lt h.2
  omega

/-- The two groups that four octets make. -/
theorem pairOctets_bounds {cs : List Char} {octets : List Nat} (h : octets? cs = some octets) :
    (pairOctets octets).length = 2 ∧ ∀ n ∈ pairOctets octets, n < 65536 := by
  obtain ⟨_, _, _, _, a, b, c, d, -, rfl, ha, hb, hc, hd⟩ := exists_of_octets? h
  have ha := (octet?_eq_some ha).2
  have hb := (octet?_eq_some hb).2
  have hc := (octet?_eq_some hc).2
  have hd := (octet?_eq_some hd).2
  refine ⟨rfl, List.forall_mem_cons.mpr ⟨?_, List.forall_mem_singleton.mpr ?_⟩⟩ <;> omega

/-- The last part between colons: a group, or two that are written as four octets. -/
theorem groups?_singleton {dotted : Bool} {part : List Char} {groups : List Nat}
    (h : groups? dotted [part] = some groups) :
    groups.length ≤ 2 ∧ ∀ n ∈ groups, n < 65536 := by
  rw [groups?] at h
  cases hoctets : octets? part with
  | some octets =>
    rw [hoctets] at h
    obtain ⟨-, h⟩ := Option.ite_none_right_eq_some.mp h
    cases h
    exact ⟨(pairOctets_bounds hoctets).1.le, (pairOctets_bounds hoctets).2⟩
  | none =>
    rw [hoctets] at h
    obtain ⟨n, hn, rfl⟩ := Option.map_eq_some_iff.mp h
    exact ⟨by simp, List.forall_mem_singleton.mpr (group?_lt hn)⟩

/-- Groups are below 65536, also the two that are written as a dotted address at the end. -/
theorem groups?_lt {dotted : Bool} {parts : List (List Char)} {groups : List Nat}
    (h : groups? dotted parts = some groups) : ∀ n ∈ groups, n < 65536 := by
  induction parts generalizing groups with
  | nil =>
    cases h
    exact List.forall_mem_nil _
  | cons part parts ih =>
    cases parts with
    | nil => exact (groups?_singleton h).2
    | cons next parts =>
      obtain ⟨n, hn, h⟩ := Option.bind_eq_some_iff.mp h
      obtain ⟨rest, hrest, h⟩ := Option.bind_eq_some_iff.mp h
      cases h
      exact List.forall_mem_cons.mpr ⟨group?_lt hn, ih hrest⟩

/-- The groups on either side of a double colon are below 65536. -/
theorem side?_lt {dotted : Bool} {cs : List Char} {groups : List Nat}
    (h : side? dotted cs = some groups) : ∀ n ∈ groups, n < 65536 := by
  unfold side? at h
  split at h
  · cases h
    exact List.forall_mem_nil _
  · exact groups?_lt h

/-- An address of version 6 is eight groups of 16 bits. -/
theorem bounds_of_v6? {cs : List Char} {groups : List Nat} (h : v6? cs = some groups) :
    groups.length = 8 ∧ ∀ n ∈ groups, n < 65536 := by
  unfold v6? at h
  split at h
  · obtain ⟨hgroups, hlength⟩ := Option.filter_eq_some_iff.mp h
    exact ⟨of_decide_eq_true hlength, groups?_lt hgroups⟩
  · obtain ⟨head, hhead, h⟩ := Option.bind_eq_some_iff.mp h
    obtain ⟨tail, htail, h⟩ := Option.bind_eq_some_iff.mp h
    rw [Option.ite_none_right_eq_some] at h
    obtain ⟨hroom, h⟩ := h
    cases h
    constructor
    · simp only [List.length_append, List.length_replicate]
      omega
    · simp only [List.mem_append, List.mem_replicate]
      rintro n ((hn | ⟨-, rfl⟩) | hn)
      · exact side?_lt hhead n hn
      · decide
      · exact side?_lt htail n hn

/-- An address is a dotted one or one of colon-separated groups. -/
theorem ofText?_cases {cs : List Char} {a : IpAddress} (h : ofText? cs = some a) :
    (∃ octets, octets? cs = some octets ∧ a = v4 octets) ∨
      ∃ groups, v6? cs = some groups ∧ a = v6 groups := by
  unfold ofText? at h
  cases hoctets : octets? cs with
  | some octets =>
    rw [hoctets] at h
    cases h
    exact .inl ⟨octets, rfl, rfl⟩
  | none =>
    rw [hoctets] at h
    obtain ⟨groups, hgroups, rfl⟩ := Option.map_eq_some_iff.mp h
    exact .inr ⟨groups, hgroups, rfl⟩

/-! ## Addresses as numbers -/

def width : IpAddress → Nat
  | v4 _ => 32
  | v6 _ => 128

/-- The number that an address is, of as many bits as its width. -/
def number : IpAddress → Nat
  | v4 octets => Nat.ofDigits 256 octets.reverse
  | v6 groups => Nat.ofDigits 65536 groups.reverse

inductive WellFormed : IpAddress → Prop
  | v4 {octets : List Nat} (length : octets.length = 4) (bound : ∀ n ∈ octets, n < 256) :
      WellFormed (v4 octets)
  | v6 {groups : List Nat} (length : groups.length = 8) (bound : ∀ n ∈ groups, n < 65536) :
      WellFormed (v6 groups)

/-- Every address that is read fills its width: four octets, or eight groups. -/
theorem wellFormed_of_ofText? {cs : List Char} {a : IpAddress} (h : ofText? cs = some a) :
    a.WellFormed := by
  rcases ofText?_cases h with ⟨octets, hoctets, rfl⟩ | ⟨groups, hgroups, rfl⟩
  · exact .v4 (bounds_of_octets? hoctets).1 (bounds_of_octets? hoctets).2
  · exact .v6 (bounds_of_v6? hgroups).1 (bounds_of_v6? hgroups).2

/-- Two lists of as many digits are the same if they write the same number. -/
theorem eq_of_ofDigits_reverse {base : Nat} (hbase : 1 < base) {ns ms : List Nat}
    (hlength : ns.length = ms.length) (hns : ∀ n ∈ ns, n < base) (hms : ∀ m ∈ ms, m < base)
    (h : Nat.ofDigits base ns.reverse = Nat.ofDigits base ms.reverse) : ns = ms := by
  refine List.reverse_inj.mp (Nat.ofDigits_inj_of_len_eq hbase ?_ ?_ ?_ h)
  · rw [List.length_reverse, List.length_reverse, hlength]
  · exact fun n hn => hns n (List.mem_reverse.mp hn)
  · exact fun m hm => hms m (List.mem_reverse.mp hm)

/-- Addresses that fill their width are told apart by the width and the number, for their digits in
the base of an octet or a group are those of the number. -/
theorem WellFormed.eq_iff {a b : IpAddress} (ha : a.WellFormed) (hb : b.WellFormed) :
    a = b ↔ a.width = b.width ∧ a.number = b.number := by
  constructor
  · rintro rfl
    exact ⟨rfl, rfl⟩
  rintro ⟨hwidth, hnumber⟩
  cases ha with
  | v4 hlength hbound =>
    cases hb with
    | v4 hlength' hbound' =>
      rw [eq_of_ofDigits_reverse (by decide) (hlength.trans hlength'.symm) hbound hbound' hnumber]
    | v6 _ _ => exact absurd hwidth (show ¬ 32 = 128 by decide)
  | v6 hlength hbound =>
    cases hb with
    | v4 _ _ => exact absurd hwidth (show ¬ 128 = 32 by decide)
    | v6 hlength' hbound' =>
      rw [eq_of_ofDigits_reverse (by decide) (hlength.trans hlength'.symm) hbound hbound' hnumber]

/-! ## The text of an address -/

/-- What tells an address from a number and from a duration. -/
inductive Shape (cs : List Char) : Prop
  /-- An address of version 6 has a colon. -/
  | colon (h : ':' ∈ cs)
  /-- An address of version 4 is made of digits and three points. -/
  | points (count : cs.count '.' = 3) (chars : ∀ c ∈ cs, c = '.' ∨ c.isDigit = true)

/-- A dotted address has three points between digits. -/
theorem shape_of_octets? {cs : List Char} {octets : List Nat} (h : octets? cs = some octets) :
    cs.count '.' = 3 ∧ ∀ c ∈ cs, c = '.' ∨ c.isDigit = true := by
  obtain ⟨p, q, r, s, _, _, _, _, rfl, -, hp, hq, hr, hs⟩ := exists_of_octets? h
  have hp := (octet?_eq_some hp).1
  have hq := (octet?_eq_some hq).1
  have hr := (octet?_eq_some hr).1
  have hs := (octet?_eq_some hs).1
  constructor
  · simp only [List.count_append, List.count_cons_self, Number.count_of_digits (.inr rfl) hp,
      Number.count_of_digits (.inr rfl) hq, Number.count_of_digits (.inr rfl) hr,
      Number.count_of_digits (.inr rfl) hs]
  · simp only [List.mem_append, List.mem_cons]
    rintro c (hc | rfl | hc | rfl | hc | rfl | hc)
    · exact .inr (hp c hc)
    · exact .inl rfl
    · exact .inr (hq c hc)
    · exact .inl rfl
    · exact .inr (hr c hc)
    · exact .inl rfl
    · exact .inr (hs c hc)

theorem colon_not_mem_of_octets? {cs : List Char} {octets : List Nat}
    (h : octets? cs = some octets) : ':' ∉ cs := by
  intro hmem
  rcases (shape_of_octets? h).2 ':' hmem with hpoint | hdigit
  · exact absurd hpoint (by decide)
  · exact absurd hdigit (by decide)

/-- An address of groups has a colon: eight groups are more than one, and a gap is two colons. -/
theorem colon_mem_of_v6? {cs : List Char} {groups : List Nat} (h : v6? cs = some groups) :
    ':' ∈ cs := by
  by_contra hcolon
  have hcut : Text.cut? [':', ':'] cs = none := by
    rw [Text.cut?_eq_none_iff]
    rintro ⟨before, after, rfl⟩
    exact hcolon (by simp)
  have hgroups := (bounds_of_v6? h).1
  rw [v6?, hcut, List.splitOn_eq_singleton hcolon] at h
  -- the whole text would be one part
  have hpart := (groups?_singleton (Option.filter_eq_some_iff.mp h).1).1
  omega

/-- Every address has the shape that no number and no boolean has. -/
theorem shape_of_ofText? {cs : List Char} {a : IpAddress} (h : ofText? cs = some a) :
    Shape cs := by
  rcases ofText?_cases h with ⟨octets, hoctets, -⟩ | ⟨groups, hgroups, -⟩
  · exact .points (shape_of_octets? hoctets).1 (shape_of_octets? hoctets).2
  · exact .colon (colon_mem_of_v6? hgroups)

/-- An address has a point or a colon. -/
theorem ofText?_eq_none {cs : List Char} (hpoint : '.' ∉ cs) (hcolon : ':' ∉ cs) :
    ofText? cs = none := by
  rw [Option.eq_none_iff_forall_ne_some]
  intro a ha
  cases shape_of_ofText? ha with
  | colon h => exact hcolon h
  | points count _ => exact hpoint (List.count_pos_iff.mp (by omega))

/-- Behind `::ffff:` an address of version 4 is an address of version 6. -/
theorem ofText?_mapped {cs : List Char} {octets : List Nat} (h : octets? cs = some octets) :
    ofText? ("::ffff:".toList ++ cs) = some (v6 ([0, 0, 0, 0, 0, 65535] ++ pairOctets octets)) := by
  have hv4 : octets? ("::ffff:".toList ++ cs) = none := by
    rw [Option.eq_none_iff_forall_ne_some]
    intro octets hoctets
    exact colon_not_mem_of_octets? hoctets (by simp)
  -- behind the gap stand one group and the four octets, which make two more
  have hparts : (['f', 'f', 'f', 'f'] ++ ':' :: cs).splitOn ':' = [['f', 'f', 'f', 'f'], cs] := by
    rw [List.splitOn_append_cons_self_of_not_mem (by decide),
      List.splitOn_eq_singleton (colon_not_mem_of_octets? h)]
  have hgroup : group? ['f', 'f', 'f', 'f'] = some 65535 := by decide
  have hside : side? true (['f', 'f', 'f', 'f'] ++ ':' :: cs) =
      some (65535 :: pairOctets octets) := by
    rw [side?, if_neg (by simp), hparts, groups?, hgroup, groups?, h]
    · rfl
    · simp
  have hv6 : v6? ("::ffff:".toList ++ cs) =
      some ([0, 0, 0, 0, 0, 65535] ++ pairOctets octets) := by
    have hcut : Text.cut? [':', ':'] ("::ffff:".toList ++ cs) =
        some ([], ['f', 'f', 'f', 'f'] ++ ':' :: cs) :=
      Text.cut?_append_self [':', ':'] (['f', 'f', 'f', 'f'] ++ ':' :: cs)
    have hlength : (65535 :: pairOctets octets).length = 3 := by
      rw [List.length_cons, (pairOctets_bounds h).1]
    rw [v6?, hcut]
    dsimp only
    rw [hside, side?, if_pos rfl]
    dsimp only [bind, Option.bind]
    rw [hlength]
    rfl
  rw [ofText?, hv4, hv6]
  rfl

end IpAddress

/-! ## Addresses are nothing else -/

/-- No reader of spans goes past a colon. -/
theorem Duration.readFrom?_of_colon {cs : List Char} (h : ':' ∈ cs) (d : Duration) (place : Place) :
    readFrom? d place cs = none := by
  induction cs generalizing d place with
  | nil => exact absurd h List.not_mem_nil
  | cons c cs ih =>
    rw [readFrom?]
    rcases List.mem_cons.mp h with rfl | h
    · cases place <;> rfl
    · cases d.step? place c with
      | none => rfl
      | some next => exact ih h next.1 next.2

namespace IpAddress.Shape

variable {cs : List Char} (h : Shape cs)

include h

theorem not_onePoint : ¬ Number.OnePoint cs := by
  intro hone
  cases h with
  | colon h => exact List.count_eq_zero.mp hone.colons h
  | points count _ =>
    have hpoints := hone.points
    omega

theorem signed64?_eq_none : Number.signed64? cs = none := by
  rw [Option.eq_none_iff_forall_ne_some]
  intro n hn
  exact h.not_onePoint (Number.onePoint_of_signed64? hn)

theorem binary64?_eq_none : Number.binary64? cs = none := by
  rw [Option.eq_none_iff_forall_ne_some]
  intro x hx
  obtain ⟨d, hd, -⟩ := Option.bind_eq_some_iff.mp hx
  exact h.not_onePoint (Number.Decimal.onePoint_of_ofText? hd)

theorem boolean?_eq_none : boolean? cs = none := by
  have htrue : cs ≠ ['t', 'r', 'u', 'e'] := by
    rintro rfl
    exact h.not_onePoint ⟨by decide, by decide⟩
  have hfalse : cs ≠ ['f', 'a', 'l', 's', 'e'] := by
    rintro rfl
    exact h.not_onePoint ⟨by decide, by decide⟩
  rw [boolean?, if_neg htrue, if_neg hfalse]

/-- No span has a colon, and a literal of a duration ends with a letter. -/
theorem literal?_eq_none : Duration.literal? cs = none := by
  rw [Option.eq_none_iff_forall_ne_some]
  intro d hd
  obtain ⟨⟨hlast, -⟩, hread⟩ := Option.ite_none_right_eq_some.mp hd
  cases h with
  | colon h =>
    rw [Duration.ofText?, Duration.readFrom?_of_colon h] at hread
    cases hread
  | points _ chars =>
    obtain ⟨c, hc, hletter⟩ := (Option.any_eq_true _ _).mp hlast
    rcases chars c (List.mem_of_getLast? hc) with rfl | hdigit
    · exact absurd hletter (by decide)
    · rw [Number.isAlpha_of_isDigit hdigit] at hletter
      exact absurd hletter (by decide)

end IpAddress.Shape

/-! ## Equality of addresses -/

namespace Value

variable {v w : Value} {a b : IpAddress}

/-- An address has no order beside any other value. -/
theorem order?_of_address (hv : IpAddress.ofText? v.text.toList = some a) : v.order? w = none := by
  have hshape := IpAddress.shape_of_ofText? hv
  exact order?_of_not_number hshape.literal?_eq_none hshape.signed64?_eq_none
    hshape.binary64?_eq_none

/-- Two addresses, one of them known as such, are equal as addresses: neither text is a boolean or a
number, so the comparison comes to this case. -/
theorem isEqual_of_address (hv : IpAddress.ofText? v.text.toList = some a)
    (hw : IpAddress.ofText? w.text.toList = some b)
    (hkind : v.kind = .ipAddress ∨ w.kind = .ipAddress) : v.isEqual w = (a == b) := by
  have hboolean : v.sameBoolean? w = none := by
    unfold sameBoolean?
    rw [(IpAddress.shape_of_ofText? hv).boolean?_eq_none]
    split <;> rfl
  have haddress : v.sameAddress? w = some (a == b) := by
    unfold sameAddress?
    rw [if_pos hkind, hv, hw]
    rfl
  rw [isEqual, order?_of_address hv, hboolean, haddress]
  rfl

end Value

theorem compareOperands_eq_of_address {v w : Value} {a b : IpAddress}
    (hv : IpAddress.ofText? v.text.toList = some a) (hw : IpAddress.ofText? w.text.toList = some b)
    (hkind : v.kind = .ipAddress ∨ w.kind = .ipAddress) :
    compareOperands (.value (some v)) (.value (some w)) .eq = .ok (a == b) := by
  rw [← Value.isEqual_of_address hv hw hkind]
  rfl

/-- Two texts that read as addresses, one of which has this kind. They are equal exactly if the
addresses are the same number of as many bits, whatever their spelling is, and have no order. An
address of version 4 never equals the address of version 6 that stands for it. -/
theorem compareOperands_address :
    (∀ (v w : Value) (a b : IpAddress), IpAddress.ofText? v.text.toList = some a →
      IpAddress.ofText? w.text.toList = some b → v.kind = .ipAddress ∨ w.kind = .ipAddress →
      ∃ same : Bool, (same = true ↔ a.width = b.width ∧ a.number = b.number) ∧
        compareOperands (.value (some v)) (.value (some w)) .eq = .ok same ∧
        compareOperands (.value (some v)) (.value (some w)) .ne = .ok (!same) ∧
        ∀ op : Operator, op.isOrdering = true →
          compareOperands (.value (some v)) (.value (some w)) op =
            .error (.kinds op v.kind w.kind)) ∧
    ∀ (v w : Value) (octets : List Nat), IpAddress.ofText? v.text.toList = some (.v4 octets) →
      w.text = "::ffff:" ++ v.text → v.kind = .ipAddress ∨ w.kind = .ipAddress →
      (IpAddress.ofText? w.text.toList).isSome = true ∧
        compareOperands (.value (some v)) (.value (some w)) .eq = .ok false ∧
        compareOperands (.value (some w)) (.value (some v)) .eq = .ok false := by
  constructor
  · intro v w a b hv hw hkind
    have hwell := IpAddress.wellFormed_of_ofText? hv
    refine ⟨a == b, ?_, compareOperands_eq_of_address hv hw hkind, ?_, fun op hop => ?_⟩
    · rw [beq_iff_eq, hwell.eq_iff (IpAddress.wellFormed_of_ofText? hw)]
    · rw [← Value.isEqual_of_address hv hw hkind]
      rfl
    · rw [compareOperands_value]
      exact compareValues_of_no_order (Value.order?_of_address hv) hop
  · -- the mapped form is an address of version 6, and so of another width
    intro v w octets hv htext hkind
    have hoctets : IpAddress.octets? v.text.toList = some octets := by
      rcases IpAddress.ofText?_cases hv with ⟨_, hoctets, hv4⟩ | ⟨_, -, hv6⟩
      · cases hv4
        exact hoctets
      · cases hv6
    have hw := IpAddress.ofText?_mapped hoctets
    rw [← String.toList_append, ← htext] at hw
    refine ⟨by rw [hw]; rfl, ?_, ?_⟩
    · exact compareOperands_eq_of_address hv hw hkind
    · exact compareOperands_eq_of_address hw hv hkind.symm

/-- Two spellings of an address of version 6, the second of which ends like a duration, and an
address of version 4 beside the one that stands for it. -/
theorem compareOperands_address_spellings :
    compareOperands (.value (some ⟨"2001:DB8::0:1d", .ipAddress⟩))
        (.value (some ⟨"2001:db8:0::001d", .string⟩)) .eq = .ok true ∧
      compareOperands (.value (some ⟨"2001:DB8::0:1d", .ipAddress⟩))
        (.value (some ⟨"2001:db8:0::001d", .string⟩)) .lt =
          .error (.kinds .lt .ipAddress .string) ∧
      compareOperands (.value (some ⟨"10.0.0.1", .string⟩))
        (.value (some ⟨"::ffff:10.0.0.1", .ipAddress⟩)) .eq = .ok false := by
  obtain ⟨hspelling, hmapped⟩ := compareOperands_address
  have hread : IpAddress.ofText? "2001:DB8::0:1d".toList =
      some (.v6 [8193, 3512, 0, 0, 0, 0, 0, 29]) := by decide +kernel
  have hread' : IpAddress.ofText? "2001:db8:0::001d".toList =
      some (.v6 [8193, 3512, 0, 0, 0, 0, 0, 29]) := by decide +kernel
  have hread4 : IpAddress.ofText? "10.0.0.1".toList = some (.v4 [10, 0, 0, 1]) := by
    decide +kernel
  obtain ⟨same, hsame, heq, -, horder⟩ := hspelling ⟨"2001:DB8::0:1d", .ipAddress⟩
    ⟨"2001:db8:0::001d", .string⟩ _ _ hread hread' (.inl rfl)
  rw [hsame.mpr ⟨rfl, rfl⟩] at heq
  exact ⟨heq, horder .lt rfl, (hmapped ⟨"10.0.0.1", .string⟩ ⟨"::ffff:10.0.0.1", .ipAddress⟩ _
    hread4 rfl (.inr rfl)).2.1⟩

end HealthRules
