/-
  Which requests `SearchPlanning::Normalize` brings to a fixpoint, and the plans that `IsValid`
  takes back from the planner.

  Trimming settles a text at once. The dots of an extension are dropped after its trimming, and
  what was behind them is not trimmed again: a white space there is the one way to a request that
  changes when it is normalized a second time (`closed_iff`).
-/
import WinCommander.Library.Check
import WinCommander.Search.SearchStore

namespace WinCommander.Search

open Library List

/-! ## Trimming -/

/-- No white space at either end. -/
structure Trimmed (value : Bytes) : Prop where
  front : ∀ byte ∈ value.head?, isSpace byte = false
  back : ∀ byte ∈ value.getLast?, isSpace byte = false

theorem trim_eq (value : Bytes) : trim value = (value.dropWhile isSpace).rdropWhile isSpace := rfl

variable {value : Bytes}

theorem trim_of_trimmed (h : Trimmed value) : trim value = value := by
  have hfront : value.dropWhile isSpace = value := by
    cases value with
    | nil => rfl
    | cons byte rest => exact dropWhile_cons_of_neg (by simpa using h.front byte rfl)
  rw [trim_eq, hfront]
  apply rdropWhile_eq_self_iff.mpr
  intro hne hlast
  have hback := h.back _ (List.getLast?_eq_some_getLast hne)
  rw [hlast] at hback
  exact absurd hback.symm Bool.false_ne_true

theorem head_of_prefix (h : l <+: m) (hhead : byte ∈ l.head?) : byte ∈ m.head? := by
  obtain ⟨tail, rfl⟩ := h
  cases l with
  | nil => nomatch hhead
  | cons first rest => exact hhead

theorem last_of_suffix (h : l <:+ m) (hlast : byte ∈ l.getLast?) : byte ∈ m.getLast? := by
  obtain ⟨front, rfl⟩ := h
  rw [List.getLast?_append]
  rw [hlast]
  rfl

theorem trimmed_trim (value : Bytes) : Trimmed (trim value) := by
  rw [trim_eq]
  constructor
  · intro byte hbyte
    have hhead := head_of_prefix ( rdropWhile_prefix isSpace _) hbyte
    have hnot := List.head?_dropWhile_not isSpace value
    rw [hhead] at hnot
    exact hnot
  · intro byte hbyte
    have hne : (value.dropWhile isSpace).rdropWhile isSpace ≠ [] := by
      intro hnil
      rw [hnil] at hbyte
      nomatch hbyte
    have hlast := rdropWhile_last_not isSpace _ hne
    rw [List.getLast?_eq_some_getLast hne] at hbyte
    cases hbyte
    simpa using hlast

theorem trimOptional_of_nil (h : trim value = []) : trimOptional (some value) = none :=
  if_pos h

theorem trimOptional_of_ne (h : trim value ≠ []) : trimOptional (some value) = some (trim value) :=
  if_neg h

theorem trimOptional_trimOptional (value : Option Bytes) :
    trimOptional (trimOptional value) = trimOptional value := by
  cases value with
  | none => rfl
  | some value =>
    by_cases hnil : trim value = []
    · rw [trimOptional_of_nil hnil]
      rfl
    · have htrim := trim_of_trimmed (trimmed_trim value)
      rw [trimOptional_of_ne hnil, trimOptional_of_ne (by rw [htrim]; exact hnil), htrim]

/-! ## Extensions -/

/-- `'.'`. -/
abbrev dot : UInt8 := 46

/-- What is left of an extension: trimmed, then without its dots. -/
def strippedExtension (value : Bytes) : Bytes := (trim value).dropWhile (· == dot)

/-- Behind the dots of an extension comes a white space. -/
def SpaceAfterDots (request : SearchRequest) : Prop :=
  ∃ value, request.filters.extension = some value ∧
    ∃ byte ∈ (strippedExtension value).head?, isSpace byte = true

/-- An extension of spaces has nothing behind its dots. -/
theorem trim_ne_of_head (h : byte ∈ (strippedExtension value).head?) : trim value ≠ [] := by
  intro hnil
  unfold strippedExtension at h
  rw [hnil] at h
  nomatch h

theorem stripped_back (value : Bytes) :
    ∀ byte ∈ (strippedExtension value).getLast?, isSpace byte = false := by
  intro byte hbyte
  exact (trimmed_trim value).back byte (last_of_suffix (dropWhile_suffix _) hbyte)

theorem normalizeExtension_ok (h : normalizeExtension (trimOptional extension) = .ok normalized) :
    (normalized = none ∧ trimOptional extension = none) ∨
      ∃ value, extension = some value ∧ strippedExtension value ≠ [] ∧
        47 ∉ strippedExtension value ∧ normalized = some (strippedExtension value) := by
  cases extension with
  | none =>
    cases h
    exact Or.inl ⟨rfl, rfl⟩
  | some value =>
    by_cases hnil : trim value = []
    · rw [trimOptional_of_nil hnil] at h
      cases h
      exact Or.inl ⟨rfl, trimOptional_of_nil hnil⟩
    · rw [trimOptional_of_ne hnil] at h
      unfold normalizeExtension at h
      dsimp only at h
      split at h
      · nomatch h
      · next hstripped =>
          rw [not_or] at hstripped
          cases h
          exact Or.inr ⟨value, rfl, hstripped.1, hstripped.2, rfl⟩

/-- A stripped extension is stripped again to itself, unless a white space comes first. -/
theorem normalizeExtension_stripped (hne : strippedExtension value ≠ [])
    (hslash : 47 ∉ strippedExtension value) :
    normalizeExtension (trimOptional (some (strippedExtension value))) =
        .ok (some (strippedExtension value)) ↔
      ∀ byte ∈ (strippedExtension value).head?, isSpace byte = false := by
  have hdots : (strippedExtension value).dropWhile (· == dot) = strippedExtension value :=
    dropWhile_idempotent _ _
  constructor
  · intro h byte hbyte
    obtain ⟨hnone, -⟩ | ⟨value', hvalue, -, -, hsame⟩ := normalizeExtension_ok h
    · nomatch hnone
    · cases hvalue
      have hfixed : strippedExtension (strippedExtension value) = strippedExtension value :=
        (Option.some.inj hsame).symm
      by_contra hspace
      have hlt : (trim (strippedExtension value)).length < (strippedExtension value).length := by
        cases hs : strippedExtension value with
        | nil => exact absurd hs hne
        | cons first rest =>
          rw [hs] at hbyte
          cases hbyte
          have hfirst : isSpace byte := by simpa using hspace
          have hle : (trim (byte :: rest)).length ≤ rest.length := by
            rw [trim_eq, dropWhile_cons_of_pos hfirst]
            exact (( rdropWhile_prefix isSpace _).length_le).trans
              (dropWhile_suffix isSpace).length_le
          rw [length_cons]
          omega
      have hle := (dropWhile_suffix (l := trim (strippedExtension value)) (· == dot)).length_le
      have hlength := congrArg List.length hfixed
      unfold strippedExtension at hlength hle hlt
      omega
  · intro hfront
    have htrim : trim (strippedExtension value) = strippedExtension value :=
      trim_of_trimmed ⟨hfront, stripped_back value⟩
    rw [trimOptional_of_ne (by rw [htrim]; exact hne), htrim]
    unfold normalizeExtension
    dsimp only
    rw [hdots, if_neg (not_or.mpr ⟨hne, hslash⟩)]

/-! ## Normalization -/

/-- What `Normalize` answers with. -/
def normalizedTo (request : SearchRequest) (extension : Option Bytes) : SearchRequest :=
  { request with
    query := trim request.query
    filters := { request.filters with
      extension := extension, content := trimOptional request.filters.content } }

theorem normalize_ok_iff : normalize request = .ok normalized ↔
      ∃ extension, normalizeExtension (trimOptional request.filters.extension) = .ok extension ∧
        sizeRangeValid request.filters.size ∧ modifiedRangeValid request.filters.modified ∧
        hasCriteria (normalizedTo request extension) ∧
        normalized = normalizedTo request extension := by
  unfold normalize normalizedTo
  cases hextension : normalizeExtension (trimOptional request.filters.extension) with
  | error failure => simp
  | ok extension =>
    cases hsize : sizeRangeValid request.filters.size with
    | false => simp
    | true =>
      cases hmodified : modifiedRangeValid request.filters.modified with
      | false => simp
      | true =>
        simp only [not_true, if_false, Except.ok.injEq, true_and]
        split
        · next hcriteria => simp [hcriteria]
        · next hcriteria =>
            simp only [not_not] at hcriteria
            simp [hcriteria, eq_comm]

/-- A normalized request is normalized to itself exactly when its extension is. -/
theorem normalize_normalized (h : normalize request = .ok normalized) :
    normalize normalized = .ok normalized ↔
      normalizeExtension (trimOptional normalized.filters.extension) =
        .ok normalized.filters.extension := by
  obtain ⟨extension, -, hsize, hmodified, hcriteria, rfl⟩ := normalize_ok_iff.mp h
  have hquery : trim (trim request.query) = trim request.query :=
    trim_of_trimmed (trimmed_trim request.query)
  have hcontent := trimOptional_trimOptional request.filters.content
  have hsame : normalizedTo (normalizedTo request extension) extension =
      normalizedTo request extension := by
    unfold normalizedTo
    rw [hquery, hcontent]
  rw [normalize_ok_iff]
  constructor
  · rintro ⟨extension', hextension', -, -, -, heq⟩
    have hfixed : extension = extension' := congrArg (·.filters.extension) heq
    rw [hextension', ← hfixed]
    rfl
  · intro hextension
    exact ⟨extension, hextension, hsize, hmodified, by rw [hsame]; exact hcriteria, hsame.symm⟩

theorem normalize_idempotent_iff (h : normalize request = .ok normalized) :
    normalize normalized = .ok normalized ↔ ¬ SpaceAfterDots request := by
  rw [normalize_normalized h]
  obtain ⟨extension, hextension, -, -, -, rfl⟩ := normalize_ok_iff.mp h
  show normalizeExtension (trimOptional extension) = .ok extension ↔ _
  obtain ⟨rfl, hnone⟩ | ⟨value, hvalue, hne, hslash, rfl⟩ := normalizeExtension_ok hextension
  · refine iff_of_true rfl ?_
    rintro ⟨value, hvalue, byte, hbyte, -⟩
    rw [hvalue, trimOptional_of_ne (trim_ne_of_head hbyte)] at hnone
    nomatch hnone
  · rw [normalizeExtension_stripped hne hslash]
    constructor
    · rintro hfront ⟨value', hvalue', byte, hbyte, hspace⟩
      rw [hvalue] at hvalue'
      cases hvalue'
      rw [hfront byte hbyte] at hspace
      cases hspace
    · intro hno byte hbyte
      by_contra hspace
      exact hno ⟨value, hvalue, byte, hbyte, by simpa using hspace⟩

/-! ## Planned backends -/

/-- Each limitation of a backend has its reason, and so has its support. -/
structure Explained (request : SearchRequest) (backend : SearchBackendDescriptor) : Prop where
  nodup : backend.limitations.Nodup
  fits : ∀ limitation ∈ backend.limitations, limitationFits ⟨request, backend, []⟩ limitation = true
  supported : backend.support = .supported →
    ∀ limitation ∈ backend.limitations, limitation = .fullDiskAccessMissing
  unsupported : backend.support = .unsupported →
    backend.limitations.any isUnsupportedLimitation = true
  unavailable : backend.support = .unavailable →
    if request.scope = .spotlightWholeMac then hasLimitation backend .spotlightUnavailable = true
    else hasLimitation backend .providerUnavailable = true
  indexUnavailable : backend.support = .indexUnavailable →
    request.scope = .spotlightWholeMac ∧ hasLimitation backend .spotlightIndexUnavailable = true

variable {backend : SearchBackendDescriptor} {limitation : SearchBackendLimitation}
  {request : SearchRequest}

theorem mem_addLimitation : other ∈ (addLimitation backend limitation).limitations ↔
      other ∈ backend.limitations ∨ other = limitation := by
  unfold addLimitation hasLimitation
  split
  · next hmem =>
      have hmem' : limitation ∈ backend.limitations := by simpa using hmem
      exact ⟨Or.inl, fun h => h.elim id fun he => he ▸ hmem'⟩
  · simp

@[simp] theorem addLimitation_capabilities (backend : SearchBackendDescriptor)
    (limitation : SearchBackendLimitation) :
    (addLimitation backend limitation).capabilities = backend.capabilities := by
  unfold addLimitation
  split <;> rfl

@[simp] theorem addLimitation_support (backend : SearchBackendDescriptor)
    (limitation : SearchBackendLimitation) :
    (addLimitation backend limitation).support = backend.support := by
  unfold addLimitation
  split <;> rfl

@[simp] theorem addLimitation_kind (backend : SearchBackendDescriptor)
    (limitation : SearchBackendLimitation) :
    (addLimitation backend limitation).kind = backend.kind := by
  unfold addLimitation
  split <;> rfl

theorem nodup_addLimitation (limitation : SearchBackendLimitation) (h : backend.limitations.Nodup) :
    (addLimitation backend limitation).limitations.Nodup := by
  unfold addLimitation hasLimitation
  split
  · exact h
  · next hnew =>
      have hnotMem : limitation ∉ backend.limitations := by simpa using hnew
      rw [← concat_eq_append]
      exact Nodup.concat hnotMem h

/-- A limitation of what was asked for stays one, whatever becomes of the support. -/
theorem limitationFits_congr (hcapabilities : backend'.capabilities = backend.capabilities)
    (hsupport : backend'.support = backend.support ∨ (backend.support = .supported ∧ backend'.support = .unsupported))
    (h : limitationFits ⟨request, backend, []⟩ limitation) :
    limitationFits ⟨request, backend', []⟩ limitation := by
  unfold limitationFits at h ⊢
  cases limitation <;> simp only [hcapabilities] at h ⊢ <;> try exact h
  all_goals
    obtain heq | ⟨hbefore, -⟩ := hsupport
    · rw [heq]
      exact h
    · rw [hbefore] at h
      simp at h

theorem Explained.mark (h : Explained request backend)
    (hunsupported : isUnsupportedLimitation limitation)
    (hfits : limitationFits ⟨request, backend, []⟩ limitation) :
    Explained request (markUnsupported backend limitation) := by
  unfold markUnsupported
  generalize hsupport : (if backend.support = .supported then SearchBackendSupport.unsupported
    else backend.support) = support
  have hchange : (support = backend.support ∧ backend.support ≠ .supported) ∨
      (backend.support = .supported ∧ support = .unsupported) := by
    split_ifs at hsupport with hs
    · exact Or.inr ⟨hs, hsupport.symm⟩
    · exact Or.inl ⟨hsupport.symm, hs⟩
  have hbefore : ∀ other, other ≠ .unsupported → support = other → backend.support = other := by
    intro other hother hs
    obtain ⟨heq, -⟩ | ⟨-, heq⟩ := hchange
    · rw [← heq, hs]
    · rw [heq] at hs
      exact absurd hs.symm hother
  have hmem : ∀ other ∈ backend.limitations,
      other ∈ (addLimitation { backend with support := support } limitation).limitations := by
    intro other hother
    exact mem_addLimitation.mpr (Or.inl hother)
  have hhas : ∀ other, hasLimitation backend other → hasLimitation
      (addLimitation { backend with support := support } limitation) other := by
    intro other hother
    unfold hasLimitation at hother ⊢
    rw [contains_iff_mem] at hother ⊢
    exact hmem other hother
  constructor
  · exact nodup_addLimitation limitation h.nodup
  · intro other hother
    have hwas : limitationFits ⟨request, backend, []⟩ other := by
      obtain hold | rfl := mem_addLimitation.mp hother
      · exact h.fits other hold
      · exact hfits
    exact limitationFits_congr (by simp) (by simpa using hchange.imp_left (·.1)) hwas
  · intro hs
    rw [addLimitation_support] at hs
    obtain ⟨heq, hne⟩ | ⟨-, heq⟩ := hchange
    · exact absurd (heq.symm.trans hs) hne
    · exact absurd (heq.symm.trans hs) (by decide)
  · intro _
    exact any_eq_true.mpr ⟨limitation, mem_addLimitation.mpr (Or.inr rfl), hunsupported⟩
  · intro hs
    rw [addLimitation_support] at hs
    have hwas := h.unavailable (hbefore _ (by decide) hs)
    split
    · next hscope =>
        rw [if_pos hscope] at hwas
        exact hhas _ hwas
    · next hscope =>
        rw [if_neg hscope] at hwas
        exact hhas _ hwas
  · intro hs
    rw [addLimitation_support] at hs
    obtain ⟨hscope, hwas⟩ := h.indexUnavailable (hbefore _ (by decide) hs)
    exact ⟨hscope, hhas _ hwas⟩

theorem Explained.markIf (h : Explained request backend)
    (hunsupported : isUnsupportedLimitation limitation)
    (hfits : condition = true → limitationFits ⟨request, backend, []⟩ limitation) :
    Explained request (markIf condition limitation backend) := by
  unfold Search.markIf
  split
  · next hcondition => exact h.mark hunsupported (hfits hcondition)
  · exact h

@[simp] theorem markIf_capabilities (condition : Bool) (limitation : SearchBackendLimitation)
    (backend : SearchBackendDescriptor) :
    (markIf condition limitation backend).capabilities = backend.capabilities := by
  unfold markIf markUnsupported
  split
  · rw [addLimitation_capabilities]
  · rfl

@[simp] theorem markIf_kind (condition : Bool) (limitation : SearchBackendLimitation)
    (backend : SearchBackendDescriptor) :
    (markIf condition limitation backend).kind = backend.kind := by
  unfold markIf markUnsupported
  split
  · rw [addLimitation_kind]
  · rfl

/-- What is still supported was not marked. -/
theorem markIf_supported (h : (markIf condition limitation backend).support = .supported) :
    condition = false ∧ backend.support = .supported := by
  unfold markIf at h
  split at h
  · unfold markUnsupported at h
    rw [addLimitation_support] at h
    split at h
    · nomatch h
    · next hne => exact absurd h hne
  · next hcondition => exact ⟨by simpa using hcondition, h⟩

theorem Explained.markFilters (h : Explained request backend) :
    Explained request (markFilters request backend) := by
  apply Explained.markIf
  · apply Explained.markIf
    · apply Explained.markIf h rfl
      intro hlacks
      exact hlacks
    · rfl
    · intro hlacks
      simpa [limitationFits] using hlacks
  · rfl
  · intro hlacks
    simpa [limitationFits] using hlacks

theorem Explained.markScope (h : Explained request backend) :
    Explained request (markScope request backend) := by
  apply Explained.markIf
  · apply Explained.markIf h rfl
    intro hlacks
    exact hlacks
  · rfl
  · intro hlacks
    simpa [limitationFits] using hlacks

theorem explained_spotlight (request : SearchRequest) (facts : SearchPlanningFacts)
    (hscope : request.scope = .spotlightWholeMac) : Explained request (spotlightBackend facts) := by
  unfold spotlightBackend
  cases facts.spotlightAvailable <;> cases facts.spotlightIndexAvailable <;>
    cases facts.fullDiskAccess <;>
    constructor <;> simp [addLimitation, hasLimitation, limitationFits, hscope]

theorem explained_direct (request : SearchRequest) (facts : SearchPlanningFacts)
    (hscope : request.scope ≠ .spotlightWholeMac) : Explained request (directBackend facts) := by
  unfold directBackend
  cases facts.providerAvailable <;>
    constructor <;> simp [addLimitation, hasLimitation, limitationFits, hscope]

/-! ## Plans -/

/-- A planned backend can do what its request asks for, or says why not. -/
structure Planned (searchPlan : SearchPlan) : Prop where
  explained : Explained searchPlan.request searchPlan.backend
  spotlight : searchPlan.request.scope = .spotlightWholeMac ↔ searchPlan.backend.kind = .spotlight
  root : searchPlan.request.scope = .spotlightWholeMac ↔ searchPlan.executionRoot = []
  name : searchPlan.backend.capabilities.name = true
  extension : searchPlan.backend.capabilities.extension = true
  wholeMac : searchPlan.request.scope = .spotlightWholeMac ↔
    searchPlan.backend.capabilities.wholeMacScope = true
  supported : searchPlan.backend.support = .supported → supportedFits searchPlan = true

variable {searchPlan : SearchPlan}

theorem supportedFits_of (h : Explained searchPlan.request searchPlan.backend)
    (hsupport : searchPlan.backend.support = .supported)
    (hcontent : (searchPlan.request.filters.content.isSome && !searchPlan.backend.capabilities.content) = false)
    (hmetadata : (usesMetadata searchPlan.request && !searchPlan.backend.capabilities.metadata) = false)
    (hhidden : (searchPlan.request.filters.includeHidden && !searchPlan.backend.capabilities.hiddenItems) = false)
    (hrecursive : (decide (searchPlan.request.scope = .recursive) && !searchPlan.backend.capabilities.recursiveScope) = false)
    (hdisk : (decide (searchPlan.request.scope = .currentDisk) && !searchPlan.backend.capabilities.currentDiskScope) = false) :
    supportedFits searchPlan := by
  have honly : (searchPlan.backend.limitations.any (· ≠ .fullDiskAccessMissing)) = false := by
    rw [any_eq_false]
    intro limitation hmem
    simpa using h.supported hsupport limitation hmem
  have hdiskAccess : (hasLimitation searchPlan.backend .fullDiskAccessMissing &&
      decide (searchPlan.request.scope ≠ .spotlightWholeMac)) = false := by
    cases hhas : hasLimitation searchPlan.backend .fullDiskAccessMissing with
    | false => rfl
    | true =>
      have hmem : SearchBackendLimitation.fullDiskAccessMissing ∈
          searchPlan.backend.limitations := by
        unfold hasLimitation at hhas
        simpa using hhas
      have hfits := h.fits _ hmem
      unfold limitationFits at hfits
      simpa using hfits
  unfold supportedFits
  dsimp only
  rw [hcontent, hmetadata, hhidden, hrecursive, hdisk, honly, hdiskAccess]
  rfl

theorem markFilters_supported (h : (markFilters request backend).support = .supported) :
    (request.filters.content.isSome && !backend.capabilities.content) = false ∧
      (usesMetadata request && !backend.capabilities.metadata) = false ∧
      (request.filters.includeHidden && !backend.capabilities.hiddenItems) = false ∧
      backend.support = .supported := by
  obtain ⟨hhidden, h⟩ := markIf_supported h
  obtain ⟨hmetadata, h⟩ := markIf_supported h
  obtain ⟨hcontent, h⟩ := markIf_supported h
  exact ⟨hcontent, hmetadata, hhidden, h⟩

theorem markScope_supported (h : (markScope request backend).support = .supported) :
    (decide (request.scope = .recursive) && !backend.capabilities.recursiveScope) = false ∧
      (decide (request.scope = .currentDisk) && !backend.capabilities.currentDiskScope) = false := by
  obtain ⟨hdisk, h⟩ := markIf_supported h
  exact ⟨(markIf_supported h).1, hdisk⟩

@[simp] theorem markFilters_capabilities (request : SearchRequest)
    (backend : SearchBackendDescriptor) :
    (markFilters request backend).capabilities = backend.capabilities := by
  unfold markFilters
  simp

@[simp] theorem markScope_capabilities (request : SearchRequest)
    (backend : SearchBackendDescriptor) :
    (markScope request backend).capabilities = backend.capabilities := by
  unfold markScope
  simp

section
variable (facts : SearchPlanningFacts)
include facts

@[simp] theorem spotlightBackend_capabilities :
    (spotlightBackend facts).capabilities = spotlightCapabilities facts := by
  unfold spotlightBackend
  cases facts.spotlightAvailable <;> cases facts.spotlightIndexAvailable <;>
    cases facts.fullDiskAccess <;> simp

@[simp] theorem directBackend_capabilities :
    (directBackend facts).capabilities = directCapabilities facts := by
  unfold directBackend
  cases facts.providerAvailable <;> simp

theorem planned_spotlight (hscope : request.scope = .spotlightWholeMac) :
    Planned ⟨request, markFilters request (spotlightBackend facts), []⟩ := by
  have hexplained := (explained_spotlight request facts hscope).markFilters
  have hkind : (markFilters request (spotlightBackend facts)).kind = .spotlight := by
    unfold markFilters spotlightBackend
    cases facts.spotlightAvailable <;> cases facts.spotlightIndexAvailable <;>
      cases facts.fullDiskAccess <;> simp
  refine ⟨hexplained, iff_of_true hscope hkind, iff_of_true hscope rfl, ?_, ?_, ?_, ?_⟩
  · simp [spotlightCapabilities]
  · simp [spotlightCapabilities]
  · simp [spotlightCapabilities, hscope]
  · intro hsupport
    obtain ⟨hcontent, hmetadata, hhidden, -⟩ := markFilters_supported hsupport
    apply supportedFits_of hexplained hsupport
    · simpa using hcontent
    · simpa using hmetadata
    · simpa using hhidden
    · simp [hscope]
    · simp [hscope]

theorem planned_direct (hscope : request.scope ≠ .spotlightWholeMac) (hroot : root ≠ []) :
    Planned ⟨request, markFilters request (markScope request (directBackend facts)), root⟩ := by
  have hexplained := (explained_direct request facts hscope).markScope.markFilters
  have hkind : (markFilters request (markScope request (directBackend facts))).kind ≠
      .spotlight := by
    unfold markFilters markScope directBackend
    cases facts.providerAvailable <;> simp
  refine ⟨hexplained, iff_of_false hscope hkind, iff_of_false hscope hroot, ?_, ?_, ?_, ?_⟩
  · simp [directCapabilities]
  · simp [directCapabilities]
  · simp [directCapabilities, hscope]
  · intro hsupport
    obtain ⟨hcontent, hmetadata, hhidden, hbefore⟩ := markFilters_supported hsupport
    obtain ⟨hrecursive, hdisk⟩ := markScope_supported hbefore
    apply supportedFits_of hexplained hsupport
    · simpa using hcontent
    · simpa using hmetadata
    · simpa using hhidden
    · simpa using hrecursive
    · simpa using hdisk

end

theorem scanRoot_ne (h : scanRoot request facts = .ok root) : root ≠ [] := by
  unfold scanRoot at h
  by_cases hfolder : trim facts.currentFolder = []
  · rw [if_pos hfolder] at h
    nomatch h
  · rw [if_neg hfolder] at h
    split_ifs at h
    · cases hdiskRoot : facts.currentDiskRoot with
      | none =>
        rw [hdiskRoot] at h
        nomatch h
      | some value =>
        rw [hdiskRoot] at h
        by_cases hnil : trim value = []
        · rw [trimOptional_of_nil hnil] at h
          nomatch h
        · rw [trimOptional_of_ne hnil] at h
          cases h
          exact hnil
    · cases h
      exact hfolder

theorem planSearch_ok (h : planSearch request facts = .ok searchPlan) :
    normalize request = .ok searchPlan.request ∧ Planned searchPlan := by
  obtain ⟨normalized, hnormalized, h⟩ := bind_ok_iff.mp h
  split_ifs at h with hscope
  · cases h
    exact ⟨hnormalized, planned_spotlight facts hscope⟩
  · obtain ⟨root, hroot, h⟩ := bind_ok_iff.mp h
    cases h
    exact ⟨hnormalized, planned_direct facts hscope (scanRoot_ne hroot)⟩

theorem supportFits_of_planned (h : Planned searchPlan) : supportFits searchPlan := by
  unfold supportFits
  cases hsupport : searchPlan.backend.support with
  | supported => exact h.supported hsupport
  | unsupported => exact h.explained.unsupported hsupport
  | unavailable =>
    have hwhy := h.explained.unavailable hsupport
    split_ifs at hwhy with hscope
    · exact (if_pos hscope).trans hwhy
    · exact (if_neg hscope).trans hwhy
  | indexUnavailable =>
    obtain ⟨hscope, hhas⟩ := h.explained.indexUnavailable hsupport
    simp [hscope, hhas]

/-- The check of a planned search comes down to the fixpoint. -/
theorem isValid_of_planned (h : Planned searchPlan) :
    isValid searchPlan ↔ normalize searchPlan.request = .ok searchPlan.request := by
  have hfits : searchPlan.backend.limitations.all (limitationFits searchPlan) :=
    all_eq_true.mpr h.explained.fits
  have hnodup := h.explained.nodup
  have hsupport := supportFits_of_planned h
  have hspotlight := h.spotlight
  have hroot := h.root
  have hwholeMac := h.wholeMac
  have hname := h.name
  have hextension := h.extension
  unfold isValid
  cases hnormalized : normalize searchPlan.request with
  | error failure => simp
  | ok normalized =>
    by_cases hscope : searchPlan.request.scope = .spotlightWholeMac
    · have h1 := hspotlight.mp hscope
      have h2 := hroot.mp hscope
      have h3 := hwholeMac.mp hscope
      simp [hscope, h1, h2, h3, hname, hextension, hnodup, hfits, hsupport]
    · have h1 := mt hspotlight.mpr hscope
      have h2 := mt hroot.mpr hscope
      have h3 : searchPlan.backend.capabilities.wholeMacScope = false := by
        simpa using mt hwholeMac.mpr hscope
      simp [hscope, h1, h2, h3, hname, hextension, hnodup, hfits, hsupport]

/-! ## Closure -/

/-- Normalizing the request settles it, and every plan of it can be started. -/
structure Closed (request : SearchRequest) : Prop where
  idempotent : ∀ normalized, normalize request = .ok normalized →
    normalize normalized = .ok normalized
  valid : ∀ facts searchPlan, planSearch request facts = .ok searchPlan → isValid searchPlan = true
  startable : ∀ facts searchPlan (store : SearchStore),
    planSearch request facts = .ok searchPlan → store.start searchPlan ≠ .error .invalidPlan

/-- Behind the dots of an extension comes a white space, and nothing else is wrong. -/
def Unsettled (request : SearchRequest) : Prop :=
  SpaceAfterDots request ∧ (∀ value ∈ request.filters.extension, 47 ∉ strippedExtension value) ∧
    sizeRangeValid request.filters.size = true ∧ modifiedRangeValid request.filters.modified = true

theorem normalize_of_unsettled (h : Unsettled request) :
    ∃ normalized, normalize request = .ok normalized := by
  obtain ⟨⟨value, hvalue, byte, hbyte, -⟩, hslash, hsize, hmodified⟩ := h
  have hne : strippedExtension value ≠ [] := by
    intro hnil
    rw [hnil] at hbyte
    nomatch hbyte
  refine ⟨_, normalize_ok_iff.mpr ⟨some (strippedExtension value), ?_, hsize, hmodified, ?_, rfl⟩⟩
  · rw [hvalue, trimOptional_of_ne (trim_ne_of_head hbyte)]
    exact if_neg (not_or.mpr ⟨hne, hslash value hvalue⟩)
  · simp [hasCriteria, normalizedTo]

theorem start_of_valid {store : SearchStore} (h : isValid searchPlan) :
    store.start searchPlan ≠ .error .invalidPlan := by
  unfold SearchStore.start
  rw [if_neg (not_not_intro h)]
  split <;> simp

/-- The requests that planning closes are all but the unsettled ones. -/
theorem closed_iff (request : SearchRequest) : Closed request ↔ ¬ Unsettled request := by
  constructor
  · intro hclosed hunsettled
    obtain ⟨normalized, hnormalized⟩ := normalize_of_unsettled hunsettled
    have hfixed := hclosed.idempotent normalized hnormalized
    exact (normalize_idempotent_iff hnormalized).mp hfixed hunsettled.1
  · intro hsettled
    have hidempotent : ∀ normalized, normalize request = .ok normalized →
        normalize normalized = .ok normalized := by
      intro normalized hnormalized
      rw [normalize_idempotent_iff hnormalized]
      intro hspace
      obtain ⟨extension, hextension, hsize, hmodified, -, -⟩ := normalize_ok_iff.mp hnormalized
      refine hsettled ⟨hspace, ?_, hsize, hmodified⟩
      intro value hvalue
      obtain ⟨-, hnone⟩ | ⟨value', hvalue', -, hslash, -⟩ := normalizeExtension_ok hextension
      · obtain ⟨value', hvalue', byte, hbyte, -⟩ := hspace
        rw [hvalue', trimOptional_of_ne (trim_ne_of_head hbyte)] at hnone
        nomatch hnone
      · rw [hvalue'] at hvalue
        cases hvalue
        exact hslash
    have hvalid : ∀ facts searchPlan, planSearch request facts = .ok searchPlan →
        isValid searchPlan := by
      intro facts searchPlan hplan
      obtain ⟨hnormalized, hplanned⟩ := planSearch_ok hplan
      exact (isValid_of_planned hplanned).mpr (hidempotent _ hnormalized)
    refine ⟨hidempotent, hvalid, ?_⟩
    intro facts searchPlan store hplan
    exact start_of_valid (hvalid facts searchPlan hplan)

/-- The extension `. txt`. -/
def spacedExtension : SearchRequest :=
  { filters := { extension := some (ascii ". txt") } }

/-- Its first normal form is not its second, and its plan is refused. -/
theorem spacedExtension_refused :
    (normalize spacedExtension).map (·.filters.extension) = .ok (some (ascii " txt")) ∧
      (normalize spacedExtension >>= normalize).map (·.filters.extension) =
        .ok (some (ascii "txt")) ∧
      (planSearch spacedExtension { currentFolder := ascii "/" }).map isValid = .ok false ∧
      ∀ store : SearchStore, (planSearch spacedExtension { currentFolder := ascii "/" }).map
        (fun searchPlan => store.start searchPlan) = .ok (.error .invalidPlan) := by
  refine ⟨by decide +kernel, by decide +kernel, by decide +kernel, ?_⟩
  intro store
  rfl

end WinCommander.Search
