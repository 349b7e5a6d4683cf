import Mathlib
import HealthRules.Proofs.Json.RoundTrip
import HealthRules.Proofs.Stored.Timestamp
import HealthRules.Stored

/-!
# Stored data reads back

Every report, outcome, rule and configuration is read back unchanged from its stored text, and so is
what any stored text was read as (`stored_reads_back`). What is proved of each type is that its
reader finds a value in the image of its form (`ReadsBack`); the readers of records then only pick
their members, each of which reads back by itself.
-/

namespace HealthRules

open Json (Document Fits)
open Json.Document

/-- Every value has a form that can be read back, nested so deep at most, and its reader finds it
there. -/
structure ReadsBack {α : Type} (depth : Nat) (toJson : α → Json) (read : Document → Option α) :
    Prop where
  fits : ∀ a, Fits depth (toJson a)
  read_image : ∀ a, read (faithful.image (toJson a)) = some a

namespace ReadsBack

variable {α : Type} {depth : Nat} {toJson : α → Json} {read : Document → Option α}

theorem mono (h : ReadsBack depth toJson read) {depth' : Nat} (hle : depth ≤ depth') :
    ReadsBack depth' toJson read where
  fits a := (h.fits a).mono hle
  read_image := h.read_image

/-- A list reads back if its items do. -/
theorem list (h : ReadsBack depth toJson read) :
    ReadsBack (depth + 1) (fun as => .array (as.map toJson)) (list? read) where
  fits as := .array fun j hj => by
    obtain ⟨a, -, rfl⟩ := List.mem_map.mp hj
    exact h.fits a
  read_image as := by
    show (faithful.images (as.map toJson)).mapM read = some as
    rw [Json.Faithful.images_eq, List.map_map, List.mapM_map]
    induction as with
    | nil => rfl
    | cons a as ih =>
      rw [List.mapM_cons]
      show (read (faithful.image (toJson a))).bind _ = _
      rw [h.read_image, Option.bind_some, ih]
      rfl

/-- What reads back from its form reads back from its text. -/
theorem ofStored?_text (h : ReadsBack depth toJson read) (a : α) :
    ofStored? read (toJson a).text = some a := by
  rw [ofStored?, Json.text, String.toList_ofList, ofText?_compact (h.fits a), Option.bind_some,
    h.read_image]

end ReadsBack

/-! ## Texts, names and numbers -/

theorem readsBack_text : ReadsBack 0 .string text? where
  fits := .string
  read_image _ := rfl

theorem readsBack_bool : ReadsBack 0 .bool bool? where
  fits := .bool
  read_image _ := rfl

theorem Rule.readsBack : ReadsBack 0 toJson ofDocument? where
  fits r := .string r.text
  read_image _ := rfl

/-- What is stored by a name reads back if no other thing has this name. -/
theorem readsBack_name {α : Type} {name : α → String} {ofName? : String → Option α}
    (h : ∀ a, ofName? (name a) = some a) :
    ReadsBack 0 (fun a => .string (name a)) (name? ofName?) where
  fits a := .string (name a)
  read_image := h

theorem Severity.readsBack : ReadsBack 0 toJson ofDocument? :=
  readsBack_name ofName?_name

theorem Kind.readsBack : ReadsBack 0 toJson ofDocument? :=
  readsBack_name ofName?_name

theorem Timestamp.readsBack : ReadsBack 0 toJson ofDocument? where
  fits t := .string (String.ofList t.print)
  read_image t := by
    have htext : text? (faithful.image t.toJson) = some (String.ofList t.print) := rfl
    rw [ofDocument?, htext, Option.bind_some, String.toList_ofList, ofText?_print]

/-- A whole number of 64 bits is within what a stored number can hold. -/
theorem fits_natural {depth n : Nat} (h : n < 2 ^ 64) : Fits depth (.number (.integer n)) :=
  .number (.integer ⟨by omega, by omega⟩)

/-- A whole number up to `max` reads back. -/
theorem natural?_image {max n : Nat} (h : n < 2 ^ 64) (hmax : n ≤ max) :
    natural? max (faithful.image (.number (.integer n))) = some n := by
  show natural? max (.number (some (Numeral.reread (.integer n)))) = some n
  rw [Numeral.reread_integer ⟨by omega, by omega⟩]
  exact if_pos hmax

/-- A body is stored as the list of its octets, each of them a whole number below 256. -/
theorem Report.readsBack_byte :
    ReadsBack 0 (fun b : UInt8 => .number (.integer b.toNat)) byteOfDocument? where
  fits b := fits_natural (by have := b.toNat_lt; omega)
  read_image b := by
    have hlt := b.toNat_lt
    rw [byteOfDocument?, natural?_image (by omega) (by omega), Option.map_some,
      UInt8.ofNat_toNat]

/-! ## Records -/

section
variable {α β : Type} {members : List (String × Document)} {key : String} {d : Document}
  {read : Document → Option α} {a : α} {next : α → Option β} {b : β}

/-- A required member is read from the document that stands under its key. -/
theorem member?_of_lookup (hlookup : members.lookup key = some d) (hread : read d = some a) :
    member? members key read = some a := by
  rw [member?, hlookup, Option.bind_some, hread]

/-- An optional member that is there is read, and its default plays no part. -/
theorem memberOr?_of_lookup {missing : α} (hlookup : members.lookup key = some d)
    (hread : read d = some a) : memberOr? members key missing read = some a := by
  rw [memberOr?, hlookup]
  exact hread

/-- A reader of a record takes one member and goes on. -/
theorem member?_bind (hlookup : members.lookup key = some d) (hread : read d = some a)
    (hnext : next a = some b) : (member? members key read).bind next = some b := by
  rw [member?_of_lookup hlookup hread, Option.bind_some, hnext]

/-- The reader of a record goes on with an optional member that it has read. -/
theorem memberOr?_bind {missing : α} (hlookup : members.lookup key = some d)
    (hread : read d = some a) (hnext : next a = some b) :
    (memberOr? members key missing read).bind next = some b := by
  rw [memberOr?_of_lookup hlookup hread, Option.bind_some, hnext]

end

/-- The parts of a duration are in range already, so none of them is carried over. -/
theorem Duration.ofParts?_self (d : Duration) :
    ofParts? d.seconds.toNat d.nanoseconds.val = some d := by
  obtain ⟨seconds, nanoseconds⟩ := d
  have hlt := seconds.toNat_lt
  have hcarry : nanoseconds.val / nanosPerSecond = 0 := Nat.div_eq_of_lt nanoseconds.isLt
  have hfit : fit? seconds.toNat = some seconds.toNat := if_pos (Nat.le_sub_one_of_lt hlt)
  have hnanos : Fin.ofNat 1000000000 nanoseconds.val = nanoseconds :=
    Fin.ext (Nat.mod_eq_of_lt nanoseconds.isLt)
  rw [ofParts?, hcarry, Nat.add_zero, hfit, Option.map_some, UInt64.ofNat_toNat, hnanos]

/-- A duration is stored as its seconds and its nanoseconds. -/
theorem Duration.readsBack : ReadsBack 1 toJson ofDocument? where
  fits d := by
    have hlt := d.seconds.toNat_lt
    refine .object ?_
    simp only [List.forall_mem_cons]
    exact ⟨fits_natural hlt, fits_natural (by omega), List.forall_mem_nil _⟩
  read_image d := by
    have hlt := d.seconds.toNat_lt
    have hnanoseconds : d.nanoseconds.val < 1000000000 := d.nanoseconds.isLt
    have hseconds : natural? (Nat.pow 2 64 - 1)
        (faithful.image (.number (.integer d.seconds.toNat))) = some d.seconds.toNat :=
      natural?_image hlt (Nat.le_sub_one_of_lt hlt)
    have hnanos : natural? (Nat.pow 2 32 - 1)
        (faithful.image (.number (.integer d.nanoseconds.val))) = some d.nanoseconds.val :=
      natural?_image (by omega) (Nat.le_sub_one_of_lt (Nat.lt_of_lt_of_le hnanoseconds (by decide)))
    -- the members are found by their keys, whatever the numbers are
    have hrecord : record? ["secs", "nanos"] (faithful.image d.toJson) =
        some [("secs", faithful.image (.number (.integer d.seconds.toNat))),
          ("nanos", faithful.image (.number (.integer d.nanoseconds.val)))] := rfl
    unfold ofDocument?
    refine Option.bind_eq_some_iff.mpr ⟨(), rfl, ?_⟩
    refine Option.bind_eq_some_iff.mpr ⟨_, hrecord, ?_⟩
    refine member?_bind rfl hseconds ?_
    refine member?_bind rfl hnanos ?_
    exact ofParts?_self d

/-- Each member of an outcome reads back, and the reader takes them one by one. -/
theorem Outcome.readsBack : ReadsBack 1 toJson ofDocument? where
  fits o := by
    refine .object ?_
    simp only [List.forall_mem_cons]
    exact ⟨.string _, .bool _, Severity.readsBack.fits _, List.forall_mem_nil _⟩
  read_image o := by
    have hrecord : record? ["condition", "success", "severity_status"]
        (faithful.image o.toJson) =
          some [("condition", faithful.image (.string o.condition)),
            ("success", faithful.image (.bool o.success)),
            ("severity_status", faithful.image o.severity.toJson)] := rfl
    unfold ofDocument?
    refine Option.bind_eq_some_iff.mpr ⟨_, hrecord, ?_⟩
    refine member?_bind rfl (readsBack_text.read_image _) ?_
    refine member?_bind rfl (readsBack_bool.read_image _) ?_
    refine member?_bind rfl (Severity.readsBack.read_image _) ?_
    rfl

/-- Each member of a report reads back, its octets, outcomes and errors as lists. -/
theorem Report.readsBack : ReadsBack 3 toJson ofDocument? where
  fits r := by
    have hstatus := r.probe.httpStatus.toNat_lt
    have hduration := fun d => (Duration.readsBack.mono (show 1 ≤ 2 by decide)).fits d
    refine .object ?_
    simp only [List.forall_mem_cons]
    exact ⟨.bool _, fits_natural (by omega), (readsBack_byte.list.mono (by decide)).fits _,
      .string _, .string _, .bool _, hduration _, hduration _, hduration _, .string _,
      Severity.readsBack.fits _ |>.mono (by decide), Outcome.readsBack.list.fits _,
      (readsBack_text.list.mono (by decide)).fits _, Timestamp.readsBack.fits _ |>.mono (by decide),
      List.forall_mem_nil _⟩
  read_image r := by
    have hlt := r.probe.httpStatus.toNat_lt
    have hstatus : natural? 65535
        (faithful.image (.number (.integer r.probe.httpStatus.toNat))) =
          some r.probe.httpStatus.toNat := natural?_image (by omega) (by omega)
    have hrecord : record? members (faithful.image r.toJson) =
        some [("success", faithful.image (.bool r.success)),
          ("http_status", faithful.image (.number (.integer r.probe.httpStatus.toNat))),
          ("body", faithful.image
            (.array (r.probe.body.map fun b => .number (.integer b.toNat)))),
          ("ip", faithful.image (.string r.probe.ip)),
          ("hostname", faithful.image (.string r.probe.hostname)),
          ("connected", faithful.image (.bool r.probe.connected)),
          ("duration", faithful.image r.probe.duration.toJson),
          ("certificate_expiration", faithful.image r.probe.certificateExpiration.toJson),
          ("domain_expiration", faithful.image r.probe.domainExpiration.toJson),
          ("dns_rcode", faithful.image (.string r.probe.dnsRcode)),
          ("severity_status", faithful.image r.severity.toJson),
          ("condition_results", faithful.image (.array (r.outcomes.map Outcome.toJson))),
          ("errors", faithful.image (.array (r.errors.map .string))),
          ("timestamp", faithful.image r.timestamp.toJson)] := rfl
    -- one step for each member, in the order in which the reader takes them
    unfold ofDocument?
    refine Option.bind_eq_some_iff.mpr ⟨_, hrecord, ?_⟩
    refine member?_bind rfl (readsBack_bool.read_image _) ?_
    refine member?_bind rfl hstatus ?_
    refine memberOr?_bind rfl (readsBack_byte.list.read_image _) ?_
    refine member?_bind rfl (readsBack_text.read_image _) ?_
    refine member?_bind rfl (readsBack_text.read_image _) ?_
    refine member?_bind rfl (readsBack_bool.read_image _) ?_
    refine member?_bind rfl (Duration.readsBack.read_image _) ?_
    refine member?_bind rfl (Duration.readsBack.read_image _) ?_
    refine member?_bind rfl (Duration.readsBack.read_image _) ?_
    refine member?_bind rfl (readsBack_text.read_image _) ?_
    refine member?_bind rfl (Severity.readsBack.read_image _) ?_
    refine member?_bind rfl (Outcome.readsBack.list.read_image _) ?_
    refine member?_bind rfl (readsBack_text.list.read_image _) ?_
    refine member?_bind rfl (Timestamp.readsBack.read_image _) ?_
    rw [UInt16.ofNat_toNat]
    rfl

/-! ## Configurations -/

theorem Endpoint.readsBack_redact :
    ReadsBack 1 (fun redact => .object [(redactKey, .bool redact)]) redactOfDocument? where
  fits redact := by
    refine .object ?_
    simp only [List.forall_mem_cons]
    exact ⟨.bool _, List.forall_mem_nil _⟩
  read_image redact := by
    have hrecord : record? [redactKey] (faithful.image (.object [(redactKey, .bool redact)])) =
        some [(redactKey, faithful.image (.bool redact))] := rfl
    unfold redactOfDocument?
    refine Option.bind_eq_some_iff.mpr ⟨_, hrecord, ?_⟩
    exact memberOr?_of_lookup rfl (readsBack_bool.read_image redact)

/-- Each member of an endpoint reads back, its rules as a list. -/
theorem Endpoint.readsBack : ReadsBack 2 toJson ofDocument? where
  fits e := by
    refine .object ?_
    simp only [List.forall_mem_cons]
    exact ⟨.string _, .string _, .string _, Rule.readsBack.list.fits _, readsBack_redact.fits _,
      List.forall_mem_nil _⟩
  read_image e := by
    have hrecord : record? ["name", "group", "url", "conditions", "ui"]
        (faithful.image e.toJson) =
          some [("name", faithful.image (.string e.name)),
            ("group", faithful.image (.string e.group)),
            ("url", faithful.image (.string e.url)),
            ("conditions", faithful.image (.array (e.rules.map Rule.toJson))),
            ("ui", faithful.image (.object [(redactKey, .bool e.redact)]))] := rfl
    unfold ofDocument?
    refine Option.bind_eq_some_iff.mpr ⟨_, hrecord, ?_⟩
    refine member?_bind rfl (readsBack_text.read_image _) ?_
    refine memberOr?_bind rfl (readsBack_text.read_image _) ?_
    refine memberOr?_bind rfl (readsBack_text.read_image _) ?_
    refine memberOr?_bind rfl (Rule.readsBack.list.read_image _) ?_
    refine memberOr?_bind rfl (readsBack_redact.read_image _) ?_
    rfl

/-- A configuration reads back as the list of its endpoints. -/
theorem Config.readsBack : ReadsBack 4 toJson ofDocument? where
  fits c := by
    refine .object ?_
    simp only [List.forall_mem_cons]
    exact ⟨Endpoint.readsBack.list.fits _, List.forall_mem_nil _⟩
  read_image c := by
    have hrecord : record? ["endpoints"] (faithful.image c.toJson) =
        some [("endpoints", faithful.image (.array (c.endpoints.map Endpoint.toJson)))] := rfl
    unfold ofDocument?
    refine Option.bind_eq_some_iff.mpr ⟨_, hrecord, ?_⟩
    refine memberOr?_bind rfl (Endpoint.readsBack.list.read_image _) ?_
    rfl

/-! ## Stored texts -/

/-- Every value is read back from its stored text, and what any text was read as is read again
when it is stored. -/
def Lossless {α : Type} (toJson : α → Json) (read : Document → Option α) : Prop :=
  (∀ a, ofStored? read (toJson a).text = some a) ∧
    ∀ text a, ofStored? read text = some a → ofStored? read (toJson a).text = some a

/-- A reader that finds every value in the image of its form loses none in its text. Whatever
another text was read as is such a value again. -/
theorem ReadsBack.lossless {α : Type} {depth : Nat} {toJson : α → Json}
    {read : Document → Option α} (h : ReadsBack depth toJson read) : Lossless toJson read :=
  ⟨h.ofStored?_text, fun _ a _ => h.ofStored?_text a⟩

/-- Outcomes, rules, reports, endpoints and configurations read back unchanged. -/
theorem stored_reads_back :
    Lossless Outcome.toJson Outcome.ofDocument? ∧ Lossless Rule.toJson Rule.ofDocument? ∧
      Lossless Report.toJson Report.ofDocument? ∧ Lossless Endpoint.toJson Endpoint.ofDocument? ∧
      Lossless Config.toJson Config.ofDocument? :=
  ⟨Outcome.readsBack.lossless, Rule.readsBack.lossless, Report.readsBack.lossless,
    Endpoint.readsBack.lossless, Config.readsBack.lossless⟩

/-- An endpoint is stored with the defaults of what its text left out, and read back with them. -/
theorem stored_reads_back_defaults :
    let e : Endpoint := ⟨"site", "", "", [], false⟩
    ofStored? Endpoint.ofDocument? "\x7b\"name\": \"site\", \"ui\": \x7b\x7d\x7d" = some e ∧
      ofStored? Endpoint.ofDocument? e.toJson.text = some e := by
  intro e
  have hread : ofStored? Endpoint.ofDocument?
      "\x7b\"name\": \"site\", \"ui\": \x7b\x7d\x7d" = some e := by
    decide +kernel
  obtain ⟨-, -, -, ⟨-, hagain⟩, -⟩ := stored_reads_back
  exact ⟨hread, hagain _ e hread⟩

end HealthRules
