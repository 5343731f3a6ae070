import Subown.CStrings
import Subown.CoreTypes

/-! The command line of `box_sim.c`: numbers, lists of iterations and options. `claimAt`
holds the first `claim_at_count` entries of the array. -/
namespace Subown

open CStrings

abbrev maxClaimAt : ℕ := 64

inductive ClaimMode where
  | claimModePeriodic | claimModeOnce | claimModeOff
  deriving DecidableEq, Repr

structure SimCfg where
  boxId : UInt16
  pubEp : Option CString
  subEp : Option CString
  subscriberId : UInt64
  subscriberIp : CString
  iterations : UInt32
  claimEvery : UInt32
  sleepMs : UInt32
  ownerEpoch : UInt32
  claimMode : ClaimMode
  claimAt : List UInt32
  emitDupCount : UInt32
  dropIncomingEvery : UInt32
  deriving DecidableEq, Repr

def parseU32 (s : CString) : Option UInt32 :=
  let v := strtoul s
  if v.range = true ∨ v.rest = s ∨ v.rest ≠ [] ∨ v.value > 0xFFFFFFFF then none
  else some v.value.toUInt32

def parseU16 (s : CString) : Option UInt16 :=
  match parseU32 s with
  | none => none
  | some tmp => if tmp > 0xFFFF then none else some tmp.toUInt16

def parseU64 (s : CString) : Option UInt64 :=
  let v := strtoul s
  if v.range = true ∨ v.rest = s ∨ v.rest ≠ [] then none else some v.value

def parseClaimMode (s : CString) : Option ClaimMode :=
  if s = "periodic".toList then some .claimModePeriodic
  else if s = "once".toList then some .claimModeOnce
  else if s = "off".toList then some .claimModeOff
  else none

/-- The loop over `strtok_r`; `out` holds the entries written so far. -/
def claimAtFrom (out : List UInt32) (save : CString) : Option (List UInt32) :=
  match _h : strtok ',' save with
  | none => some out
  | some (tok, save') =>
      if out.length ≥ maxClaimAt then none
      else
        match parseU32 tok with
        | none => none
        | some v => if v = 0 then none else claimAtFrom (out ++ [v]) save'
termination_by save.length
decreasing_by exact strtok_length ‹_›

def parseClaimAtCsv (s : CString) : Option (List UInt32) :=
  if s.length ≥ 512 then none
  else
    match claimAtFrom [] s with
    | none => none
    | some out => if out.length > 0 then some out else none

def defaultCfg : SimCfg where
  boxId := 0
  pubEp := none
  subEp := none
  subscriberId := 1001
  subscriberIp := "10.0.0.10".toList
  iterations := 200
  claimEvery := 20
  sleepMs := 20
  ownerEpoch := 1
  claimMode := .claimModePeriodic
  claimAt := []
  emitDupCount := 0
  dropIncomingEvery := 0

inductive SimOption where
  | boxId | pub | sub | subscriberId | ip | iterations | claimMode | claimEvery | claimAt | emitDup
  | dropIncomingEvery | sleepMs | ownerEpoch
  deriving DecidableEq, Repr

namespace SimOption

def name : SimOption → CString
  | .boxId => "--box-id".toList
  | .pub => "--pub".toList
  | .sub => "--sub".toList
  | .subscriberId => "--subscriber-id".toList
  | .ip => "--ip".toList
  | .iterations => "--iterations".toList
  | .claimMode => "--claim-mode".toList
  | .claimEvery => "--claim-every".toList
  | .claimAt => "--claim-at".toList
  | .emitDup => "--emit-dup".toList
  | .dropIncomingEvery => "--drop-incoming-every".toList
  | .sleepMs => "--sleep-ms".toList
  | .ownerEpoch => "--owner-epoch".toList

/-- In the order of the comparisons. -/
def all : List SimOption :=
  [.boxId, .pub, .sub, .subscriberId, .ip, .iterations, .claimMode, .claimEvery, .claimAt,
    .emitDup, .dropIncomingEvery, .sleepMs, .ownerEpoch]

/-- The chain of `strcmp`. -/
def named (arg : CString) : Option SimOption := all.find? fun opt => arg = opt.name

end SimOption

/-- The effect of an option with its value. -/
def applyOption (cfg : SimCfg) (value : CString) : SimOption → Option SimCfg
  | .boxId => (parseU16 value).map fun v => { cfg with boxId := v }
  | .pub => some { cfg with pubEp := some value }
  | .sub => some { cfg with subEp := some value }
  | .subscriberId => (parseU64 value).map fun v => { cfg with subscriberId := v }
  | .ip => some { cfg with subscriberIp := value }
  | .iterations => (parseU32 value).map fun v => { cfg with iterations := v }
  | .claimMode => (parseClaimMode value).map fun v => { cfg with claimMode := v }
  | .claimEvery => (parseU32 value).map fun v => { cfg with claimEvery := v }
  | .claimAt => (parseClaimAtCsv value).map fun v => { cfg with claimAt := v }
  | .emitDup => (parseU32 value).map fun v => { cfg with emitDupCount := v }
  | .dropIncomingEvery => (parseU32 value).map fun v => { cfg with dropIncomingEvery := v }
  | .sleepMs => (parseU32 value).map fun v => { cfg with sleepMs := v }
  | .ownerEpoch => (parseU32 value).map fun v => { cfg with ownerEpoch := v }

/-- The loop over `argv`; an unknown option is an error, and so is one without a value. -/
def parseOptions (cfg : SimCfg) : List CString → Option SimCfg
  | [] => some cfg
  | [_] => none
  | arg :: value :: rest =>
      match (SimOption.named arg).bind (applyOption cfg value) with
      | none => none
      | some cfg => parseOptions cfg rest

/-- `parse_args` on the arguments after the program's name. -/
def parseArgs (argv : List CString) : Option SimCfg :=
  match parseOptions defaultCfg argv with
  | none => none
  | some cfg =>
      if cfg.pubEp = none ∨ cfg.subEp = none then none
      else if cfg.boxId > 1 then none
      else some (if cfg.claimEvery = 0 then { cfg with claimEvery := 1 } else cfg)

/-! ### Numbers -/

/-- The text is a numeral for `k` up to the bound; a minus sign counts down from `2 ^ 64`. -/
def Reads (s : CString) (k bound : ℕ) : Prop :=
  ∃ negative digits, Numeral s negative digits ∧ Nat.ofDigitChars 10 digits 0 ≤ ulongMax ∧
    k = (signed negative (Nat.ofDigitChars 10 digits 0)).toNat ∧ k ≤ bound

variable {s : CString} {n bound : ℕ} {vs : List UInt32} {cfg cfg' : SimCfg}

theorem Reads.of_le {k bound' : ℕ} (h : Reads s k bound) (hle : k ≤ bound') :
    Reads s k bound' := by
  obtain ⟨negative, digits, hnum, hlt, hk, _⟩ := h
  exact ⟨negative, digits, hnum, hlt, hk, hle⟩

/-- The checks the parsers make: the whole text is a numeral in range. -/
theorem strtoul_reads {v : UInt64} :
    ((strtoul s).range = false ∧ (strtoul s).rest ≠ s ∧ (strtoul s).rest = [] ∧
      (strtoul s).value = v) ↔ Reads s v.toNat ulongMax := by
  constructor
  · rintro ⟨hrange, hne, hrest, rfl⟩
    obtain ⟨negative, digits, h⟩ := numeral_of_strtoul hrest hne
    have heq := h.strtoul_eq
    split_ifs at heq with hlt
    · refine ⟨negative, digits, h, hlt, ?_, Nat.le_of_lt_succ (UInt64.toNat_lt _)⟩
      rw [heq]
    · rw [heq] at hrange
      cases hrange
  · rintro ⟨negative, digits, h, hlt, hv, _⟩
    have heq := h.strtoul_eq
    rw [if_pos hlt] at heq
    rw [heq]
    exact ⟨rfl, h.ne_nil.symm, rfl, UInt64.toNat_inj.mp hv.symm⟩

theorem parseU64_iff {v : UInt64} : parseU64 s = some v ↔ Reads s v.toNat ulongMax := by
  constructor
  · intro h
    simp only [parseU64] at h
    split_ifs at h with hbad
    simp only [not_or, Bool.not_eq_true, not_not] at hbad
    obtain ⟨hrange, hne, hrest⟩ := hbad
    exact strtoul_reads.mp ⟨hrange, hne, hrest, Option.some.inj h⟩
  · intro h
    obtain ⟨hrange, hne, hrest, rfl⟩ := strtoul_reads.mpr h
    refine if_neg ?_
    simp only [not_or, Bool.not_eq_true, not_not]
    exact ⟨hrange, hne, hrest⟩

theorem parseU32_iff {v : UInt32} : parseU32 s = some v ↔ Reads s v.toNat 0xFFFFFFFF := by
  constructor
  · intro h
    simp only [parseU32] at h
    split_ifs at h with hbad
    simp only [not_or, Bool.not_eq_true, not_not] at hbad
    obtain ⟨hrange, hne, hrest, hmax⟩ := hbad
    have hle : (strtoul s).value.toNat ≤ 0xFFFFFFFF :=
      UInt64.le_iff_toNat_le.mp (UInt64.not_lt.mp hmax)
    have hreads := (strtoul_reads.mp ⟨hrange, hne, hrest, rfl⟩).of_le hle
    obtain rfl := Option.some.inj h
    rwa [UInt64.toNat_toUInt32, Nat.mod_eq_of_lt (by omega)]
  · intro h
    have hle : v.toNat ≤ 0xFFFFFFFF := Nat.le_of_lt_succ v.toNat_lt
    have hwide : v.toUInt64.toNat = v.toNat := UInt32.toNat_toUInt64 v
    rw [← hwide] at h hle
    obtain ⟨hrange, hne, hrest, hvalue⟩ := strtoul_reads.mpr (h.of_le (hle.trans (by decide)))
    have hmax : ¬ (strtoul s).value > 0xFFFFFFFF := by
      rw [hvalue]
      exact UInt64.not_lt.mpr (UInt64.le_iff_toNat_le.mpr hle)
    simp only [parseU32]
    rw [if_neg, hvalue, UInt32.toUInt32_toUInt64]
    simp only [not_or, Bool.not_eq_true, not_not]
    exact ⟨hrange, hne, hrest, hmax⟩

theorem parseU16_iff {v : UInt16} : parseU16 s = some v ↔ Reads s v.toNat 0xFFFF := by
  constructor
  · intro h
    unfold parseU16 at h
    split at h
    · cases h
    next tmp htmp =>
      split_ifs at h with hmax
      have hle : tmp.toNat ≤ 0xFFFF := UInt32.le_iff_toNat_le.mp (UInt32.not_lt.mp hmax)
      obtain rfl := Option.some.inj h
      rw [UInt32.toNat_toUInt16, Nat.mod_eq_of_lt (by omega)]
      exact (parseU32_iff.mp htmp).of_le hle
  · intro h
    have hle : v.toNat ≤ 0xFFFF := Nat.le_of_lt_succ v.toNat_lt
    have hwide : v.toUInt32.toNat = v.toNat := UInt16.toNat_toUInt32 v
    rw [← hwide] at h hle
    have hmax : ¬ v.toUInt32 > 0xFFFF := UInt32.not_lt.mpr (UInt32.le_iff_toNat_le.mpr hle)
    rw [parseU16, parseU32_iff.mpr (h.of_le (hle.trans (by decide)))]
    dsimp only
    rw [if_neg hmax]
    simp

/-- The parsers accept exactly the numerals of their range, signs and leading white space
included, and return their value. -/
theorem number_parsers_exact (s : CString) :
    (∀ v, parseU32 s = some v ↔ Reads s v.toNat 0xFFFFFFFF) ∧
      (∀ v, parseU16 s = some v ↔ Reads s v.toNat 0xFFFF) ∧
      ∀ v, parseU64 s = some v ↔ Reads s v.toNat ulongMax :=
  ⟨fun _ => parseU32_iff, fun _ => parseU16_iff, fun _ => parseU64_iff⟩

/-- A minus sign is accepted: this one reads as 1. -/
example : parseU32 "-18446744073709551615".toList = some 1 := by decide +kernel

theorem reads_toDigits (hle : n ≤ bound) (hbound : bound ≤ ulongMax) :
    Reads (Nat.toDigits 10 n) n bound := by
  refine ⟨false, _, numeral_toDigits n, ?_, ?_, hle⟩
  · rw [Nat.ofDigitChars_ten_toDigits]
    exact hle.trans hbound
  · rw [Nat.ofDigitChars_ten_toDigits]
    change n = (UInt64.ofNat n).toNat
    rw [UInt64.toNat_ofNat', Nat.mod_eq_of_lt (Nat.lt_succ_of_le (hle.trans hbound))]

theorem parseU32_toDigits (v : UInt32) : parseU32 (Nat.toDigits 10 v.toNat) = some v :=
  parseU32_iff.mpr (reads_toDigits (Nat.le_of_lt_succ v.toNat_lt) (by decide))

theorem parseU16_toDigits (v : UInt16) : parseU16 (Nat.toDigits 10 v.toNat) = some v :=
  parseU16_iff.mpr (reads_toDigits (Nat.le_of_lt_succ v.toNat_lt) (by decide))

theorem parseU64_toDigits (v : UInt64) : parseU64 (Nat.toDigits 10 v.toNat) = some v :=
  parseU64_iff.mpr (reads_toDigits (Nat.le_of_lt_succ v.toNat_lt) le_rfl)

/-! ### Lists of iterations -/

/-- The loop appends the values of the remaining tokens. -/
theorem claimAtFrom_iff {out : List UInt32} (hout : out.length ≤ maxClaimAt) (s : CString) :
    claimAtFrom out s = some vs ↔ vs.length ≤ maxClaimAt ∧ ∃ new, vs = out ++ new ∧
      (tokens ',' s).map parseU32 = new.map some ∧ ∀ v ∈ new, v ≠ 0 := by
  induction hn : s.length using Nat.strong_induction_on generalizing out s with
  | _ n ih =>
      rw [claimAtFrom]
      obtain ⟨hnone, htokens⟩ | ⟨token, rest, hsome, hlt, htokens⟩ := strtok_cases ',' s
      · rw [hnone, htokens]
        dsimp only
        constructor
        · intro h
          obtain rfl := Option.some.inj h
          exact ⟨hout, [], (List.append_nil _).symm, rfl, nofun⟩
        · rintro ⟨_, new, rfl, hmap, _⟩
          obtain rfl := List.map_eq_nil_iff.mp hmap.symm
          rw [List.append_nil]
      · rw [htokens, hsome]
        dsimp only
        by_cases hfull : out.length ≥ maxClaimAt
        · rw [if_pos hfull]
          refine iff_of_false nofun ?_
          rintro ⟨hlen, new, rfl, hmap, _⟩
          cases new with
          | nil => cases hmap
          | cons v new =>
              rw [List.length_append, List.length_cons] at hlen
              omega
        rw [if_neg hfull]
        cases hv : parseU32 token with
        | none =>
            refine iff_of_false nofun ?_
            rintro ⟨_, new, _, hmap, _⟩
            cases new with
            | nil => cases hmap
            | cons v new =>
                rw [List.map_cons, hv] at hmap
                cases (List.cons.inj hmap).1
        | some v =>
            dsimp only
            by_cases hzero : v = 0
            · rw [if_pos hzero]
              refine iff_of_false nofun ?_
              rintro ⟨_, new, _, hmap, hnew⟩
              cases new with
              | nil => cases hmap
              | cons w new =>
                  rw [List.map_cons, hv] at hmap
                  obtain rfl := Option.some.inj (List.cons.inj hmap).1
                  exact hnew v List.mem_cons_self hzero
            have hout' : (out ++ [v]).length ≤ maxClaimAt := by
              rw [List.length_append, List.length_singleton]
              omega
            rw [if_neg hzero, ih rest.length (hn ▸ hlt) hout' rest rfl]
            refine and_congr_right fun _ => ?_
            constructor
            · rintro ⟨new, rfl, hmap, hnew⟩
              refine ⟨v :: new, by simp, ?_, ?_⟩
              · rw [List.map_cons, List.map_cons, hv, hmap]
              · exact List.forall_mem_cons.mpr ⟨hzero, hnew⟩
            · rintro ⟨new, rfl, hmap, hnew⟩
              cases new with
              | nil => cases hmap
              | cons w new =>
                  rw [List.map_cons, List.map_cons, hv] at hmap
                  obtain ⟨hw, htail⟩ := List.cons.inj hmap
                  obtain rfl := Option.some.inj hw
                  exact ⟨new, by simp, htail, (List.forall_mem_cons.mp hnew).2⟩

theorem parseClaimAtCsv_iff : parseClaimAtCsv s = some vs ↔ s.length < 512 ∧ 0 < vs.length ∧
    vs.length ≤ maxClaimAt ∧ (tokens ',' s).map parseU32 = vs.map some ∧ ∀ v ∈ vs, v ≠ 0 := by
  have hloop : ∀ out, claimAtFrom [] s = some out ↔ out.length ≤ maxClaimAt ∧
      (tokens ',' s).map parseU32 = out.map some ∧ ∀ v ∈ out, v ≠ 0 := by
    intro out
    rw [claimAtFrom_iff (Nat.zero_le _)]
    simp
  unfold parseClaimAtCsv
  by_cases hlong : s.length ≥ 512
  · rw [if_pos hlong]
    exact iff_of_false nofun fun h => not_lt.mpr hlong h.1
  rw [if_neg hlong]
  have hshort := not_le.mp hlong
  constructor
  · intro h
    split at h
    · cases h
    next out hout =>
      split_ifs at h with hpos
      obtain rfl := Option.some.inj h
      obtain ⟨hlen, hmap, hnew⟩ := (hloop out).mp hout
      exact ⟨hshort, hpos, hlen, hmap, hnew⟩
  · rintro ⟨_, hpos, hlen, hmap, hnew⟩
    rw [(hloop vs).mpr ⟨hlen, hmap, hnew⟩]
    exact if_pos hpos

/-- The decimal numbers with commas between them. -/
def claimAtText (vs : List UInt32) : CString :=
  [','].intercalate (vs.map fun v => Nat.toDigits 10 v.toNat)

theorem tokens_claimAtText (vs : List UInt32) :
    tokens ',' (claimAtText vs) = vs.map fun v => Nat.toDigits 10 v.toNat := by
  refine tokens_intercalate ?_ ?_
  · intro l hl
    obtain ⟨v, _, rfl⟩ := List.mem_map.mp hl
    exact Nat.toDigits_ne_nil
  · intro l hl hmem
    obtain ⟨v, _, rfl⟩ := List.mem_map.mp hl
    exact absurd (Nat.isDigit_of_mem_toDigits (by decide) (by decide) hmem) (by decide)

theorem parseClaimAtCsv_text (hpos : 0 < vs.length) (hlen : vs.length ≤ maxClaimAt)
    (hvs : ∀ v ∈ vs, v ≠ 0) (hfits : (claimAtText vs).length < 512) :
    parseClaimAtCsv (claimAtText vs) = some vs := by
  refine parseClaimAtCsv_iff.mpr ⟨hfits, hpos, hlen, ?_, hvs⟩
  rw [tokens_claimAtText, List.map_map]
  exact List.map_congr_left fun v _ => parseU32_toDigits v

/-- A list is accepted exactly when it is shorter than the buffer and its nonempty pieces
are one to 64 nonzero 32-bit numerals; and every such list of numbers that fits when
written in decimal is read back. -/
theorem claim_at_exact :
    (∀ s vs, parseClaimAtCsv s = some vs ↔ s.length < 512 ∧ 0 < vs.length ∧
      vs.length ≤ maxClaimAt ∧ (tokens ',' s).map parseU32 = vs.map some ∧ ∀ v ∈ vs, v ≠ 0) ∧
    ∀ vs : List UInt32, 0 < vs.length → vs.length ≤ maxClaimAt → (∀ v ∈ vs, v ≠ 0) →
      (claimAtText vs).length < 512 → parseClaimAtCsv (claimAtText vs) = some vs :=
  ⟨fun _ _ => parseClaimAtCsv_iff, fun _ => parseClaimAtCsv_text⟩

/-! ### Configurations -/

/-- What the main loop relies on. -/
structure WellFormedCfg (cfg : SimCfg) : Prop where
  pubEp : cfg.pubEp ≠ none
  subEp : cfg.subEp ≠ none
  boxId : cfg.boxId ≤ 1
  claimEvery : cfg.claimEvery ≠ 0
  claimAtLength : cfg.claimAt.length ≤ maxClaimAt
  claimAt : ∀ v ∈ cfg.claimAt, v ≠ 0

def ClaimMode.text : ClaimMode → CString
  | .claimModePeriodic => "periodic".toList
  | .claimModeOnce => "once".toList
  | .claimModeOff => "off".toList

/-- Options that give a configuration. -/
def SimCfg.options (cfg : SimCfg) : List (SimOption × CString) :=
  [(.boxId, Nat.toDigits 10 cfg.boxId.toNat), (.pub, cfg.pubEp.getD []),
    (.sub, cfg.subEp.getD []), (.subscriberId, Nat.toDigits 10 cfg.subscriberId.toNat),
    (.ip, cfg.subscriberIp), (.iterations, Nat.toDigits 10 cfg.iterations.toNat),
    (.claimMode, cfg.claimMode.text), (.claimEvery, Nat.toDigits 10 cfg.claimEvery.toNat),
    (.emitDup, Nat.toDigits 10 cfg.emitDupCount.toNat),
    (.dropIncomingEvery, Nat.toDigits 10 cfg.dropIncomingEvery.toNat),
    (.sleepMs, Nat.toDigits 10 cfg.sleepMs.toNat),
    (.ownerEpoch, Nat.toDigits 10 cfg.ownerEpoch.toNat)] ++
  if cfg.claimAt = [] then [] else [(.claimAt, claimAtText cfg.claimAt)]

def commandLine (options : List (SimOption × CString)) : List CString :=
  options.flatMap fun o => [o.1.name, o.2]

/-- The list an option leaves is the one before or one the list parser accepted. -/
theorem applyOption_claimAt {opt : SimOption} {value : CString}
    (h : applyOption cfg value opt = some cfg') :
    cfg'.claimAt = cfg.claimAt ∨ parseClaimAtCsv value = some cfg'.claimAt := by
  cases opt
  case claimAt =>
      obtain ⟨v, hv, rfl⟩ := Option.map_eq_some_iff.mp h
      exact Or.inr hv
  case pub | sub | ip =>
      obtain rfl := Option.some.inj h
      exact Or.inl rfl
  all_goals
    obtain ⟨v, _, rfl⟩ := Option.map_eq_some_iff.mp h
    exact Or.inl rfl

theorem parseOptions_claimAt {argv : List CString} (h : parseOptions cfg argv = some cfg')
    (hcfg : cfg.claimAt.length ≤ maxClaimAt ∧ ∀ v ∈ cfg.claimAt, v ≠ 0) :
    cfg'.claimAt.length ≤ maxClaimAt ∧ ∀ v ∈ cfg'.claimAt, v ≠ 0 := by
  induction cfg, argv using parseOptions.induct with
  | case1 cfg =>
      obtain rfl := Option.some.inj h
      exact hcfg
  | case2 cfg arg => cases h
  | case3 cfg arg value rest hopt =>
      rw [parseOptions, hopt] at h
      cases h
  | case4 cfg arg value rest next hopt ih =>
      rw [parseOptions, hopt] at h
      refine ih h ?_
      obtain ⟨opt, _, happly⟩ := Option.bind_eq_some_iff.mp hopt
      obtain hsame | hparsed := applyOption_claimAt happly
      · rw [hsame]
        exact hcfg
      · obtain ⟨_, _, hlen, _, hnew⟩ := parseClaimAtCsv_iff.mp hparsed
        exact ⟨hlen, hnew⟩

theorem parseArgs_wellFormed {argv : List CString} (h : parseArgs argv = some cfg) :
    WellFormedCfg cfg := by
  unfold parseArgs at h
  split at h
  · cases h
  next parsed hparsed =>
    obtain ⟨hlen, hnew⟩ := parseOptions_claimAt hparsed ⟨Nat.zero_le _, nofun⟩
    split_ifs at h with hends hbox hevery
    · obtain ⟨hpub, hsub⟩ := not_or.mp hends
      obtain rfl := Option.some.inj h
      exact ⟨hpub, hsub, UInt16.not_lt.mp hbox, (by decide : (1 : UInt32) ≠ 0), hlen, hnew⟩
    · obtain ⟨hpub, hsub⟩ := not_or.mp hends
      obtain rfl := Option.some.inj h
      exact ⟨hpub, hsub, UInt16.not_lt.mp hbox, hevery, hlen, hnew⟩

/-- The names are told apart. -/
theorem named_name (opt : SimOption) : SimOption.named opt.name = some opt := by
  cases opt <;> decide

theorem parseOptions_commandLine (cfg : SimCfg) (options : List (SimOption × CString)) :
    parseOptions cfg (commandLine options) =
      options.foldlM (fun cfg o => applyOption cfg o.2 o.1) cfg := by
  induction options generalizing cfg with
  | nil => rfl
  | cons o options ih =>
      have hstep : commandLine (o :: options) = o.1.name :: o.2 :: commandLine options := rfl
      rw [hstep, parseOptions, named_name, List.foldlM_cons]
      cases h : applyOption cfg o.2 o.1 with
      | none => simp [h]
      | some next => simp [h, ih]

theorem parseClaimMode_text (mode : ClaimMode) : parseClaimMode mode.text = some mode := by
  cases mode <;> decide

/-- Each option sets its field to the value its text was made from. -/
theorem options_apply (h : WellFormedCfg cfg) (hfits : (claimAtText cfg.claimAt).length < 512) :
    cfg.options.foldlM (fun cfg o => applyOption cfg o.2 o.1) defaultCfg = some cfg := by
  obtain ⟨pub, hpub⟩ := Option.ne_none_iff_exists'.mp h.pubEp
  obtain ⟨sub, hsub⟩ := Option.ne_none_iff_exists'.mp h.subEp
  have hclaims : cfg.claimAt ≠ [] → parseClaimAtCsv (claimAtText cfg.claimAt) = some cfg.claimAt :=
    fun hne => parseClaimAtCsv_text (List.length_pos_iff.mpr hne) h.claimAtLength h.claimAt hfits
  cases cfg
  subst hpub hsub
  unfold SimCfg.options
  split_ifs with hnil
  · simp_all [applyOption, parseU16_toDigits, parseU32_toDigits, parseU64_toDigits,
      parseClaimMode_text, defaultCfg]
  · simp_all [applyOption, parseU16_toDigits, parseU32_toDigits, parseU64_toDigits,
      parseClaimMode_text]

/-- A command line gives only configurations the main loop can run, and every one of them is
given by a command line, if its list of iterations fits the buffer. -/
theorem configurations_exact :
    (∀ argv cfg, parseArgs argv = some cfg → WellFormedCfg cfg) ∧
    ∀ cfg, WellFormedCfg cfg → (claimAtText cfg.claimAt).length < 512 →
      parseArgs (commandLine cfg.options) = some cfg := by
  refine ⟨fun _ _ => parseArgs_wellFormed, fun cfg h hfits => ?_⟩
  have hends : ¬ (cfg.pubEp = none ∨ cfg.subEp = none) := not_or.mpr ⟨h.pubEp, h.subEp⟩
  rw [parseArgs, parseOptions_commandLine, options_apply h hfits]
  dsimp only
  rw [if_neg hends, if_neg (UInt16.not_lt.mpr h.boxId), if_neg h.claimEvery]

end Subown
