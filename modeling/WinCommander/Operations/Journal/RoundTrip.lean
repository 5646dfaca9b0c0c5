/-
  The journal codec round trip.

  `Coherent entries next` is what the journal keeps true of its entries and its sequence:
  distinct plans, distinct ids, all below `next`. On a coherent list, whatever the encoder
  writes the decoder reads back to the same entries and sequence, with nothing to migrate
  (`decode_encode`). The proof follows the document: an item, the items of an entry in
  order, an entry, the entries.
-/
import WinCommander.Operations.Journal.Codec
import WinCommander.Operations.PlanCodec.RoundTrip

namespace WinCommander.Operations.Journal

open Library List Json PlanCodec

/-! ## Tokens -/

variable {value : Json} {values : List Json} {readers : Readers}
  {entries : List OperationJournalEntry}

theorem parseState_ok :
    parseState value = .ok state ↔ ∃ token, value = .str token ∧ stateToken state = some token := by
  rw [parseState, parseJournalToken, parseToken_ok (by decide)]
  cases state <;> simp [stateToken, eq_comm]

theorem parseItemStatus_ok : parseItemStatus value = .ok status ↔
      ∃ token, value = .str token ∧ itemStatusToken status = some token := by
  rw [parseItemStatus, parseJournalToken, parseToken_ok (by decide)]
  cases status <;> simp [itemStatusToken, eq_comm]

theorem parseItemError_ok : parseItemError value = .ok error ↔
      ∃ token, value = .str token ∧ itemErrorToken error = some token := by
  rw [parseItemError, parseJournalToken, parseToken_ok (by decide)]
  cases error <;> simp [itemErrorToken, eq_comm]

theorem parseRecoveryAction_ok : parseRecoveryAction value = .ok action ↔
      ∃ token, value = .str token ∧ recoveryActionToken action = some token := by
  rw [parseRecoveryAction, parseJournalToken, parseToken_ok (by decide)]
  cases action <;> simp [recoveryActionToken, eq_comm]

theorem parseFilesystemSyncStatus_ok : parseFilesystemSyncStatus value = .ok status ↔
      ∃ token, value = .str token ∧ filesystemSyncStatusToken status = some token := by
  rw [parseFilesystemSyncStatus, parseJournalToken, parseToken_ok (by decide)]
  cases status <;> simp [filesystemSyncStatusToken, eq_comm]

theorem parsePublicationState_ok : parsePublicationState value = .ok state ↔
      ∃ token, value = .str token ∧ publicationStateToken state = some token := by
  rw [parsePublicationState, parseJournalToken, parseToken_ok (by decide)]
  cases state <;> simp [publicationStateToken, eq_comm]

theorem parseRemovalState_ok : parseRemovalState value = .ok state ↔
      ∃ token, value = .str token ∧ removalStateToken state = some token := by
  rw [parseRemovalState, parseJournalToken, parseToken_ok (by decide)]
  cases state <;> simp [removalStateToken, eq_comm]

theorem ascii_of_parse (h : parseJournalToken tokens (.str token) = .ok a)
    (hascii : ∀ entry ∈ tokens, Json.Ascii entry.1) : Json.Ascii token :=
  ascii_of_parseToken h hascii

/-! ## Items -/

theorem journalMembers_zip (names : List Bytes) (values : List Json) (hnd : names.Nodup)
    (hlen : values.length = names.length) :
    journalMembers names (.obj (names.zip values)) = .ok values :=
  jsonMembers_zip _ _ _ _ names values hnd hlen

theorem plain_uint64 (n : UInt64) : Json.Plain (.int n.toNat) := by
  have := n.toNat_lt
  exact plain_int (by omega) (by omega)

theorem plain_int32 (n : Int32) : Json.Plain (.int n.toInt) := by
  have hl := n.le_toInt
  have hu := n.toInt_lt
  exact plain_int (by omega) (by omega)

theorem plain_int64 (n : Int64) : Json.Plain (.int n.toInt) := by
  have hl := n.le_toInt
  have hu := n.toInt_lt
  exact plain_int (by omega) (by omega)

/-- What the encoder writes for an item is plain, and the decoder reads it back in its place. -/
theorem decodeItem_of_encode (h : encodeItem plan item = .ok value)
    (hprevious : previous.any (· ≥ item.itemIndex) = false) :
    decodeItem schemaVersion plan previous value = .ok item ∧ Json.Plain value := by
  simp only [encodeItem, bind_ok_iff, refuse_ok_iff, demand_ok_iff, exists_const, pure_ok,
    Except.ok.injEq, not_not] at h
  obtain ⟨status, hstatus, error, herror, prior, hprior, publication, hpublication, removal,
    hremoval, sync, hsync, recovery, hrecovery, hvalid, rfl⟩ := h
  have pstatus := parseItemStatus_ok.mpr ⟨status, rfl, hstatus⟩
  have perror := parseItemError_ok.mpr ⟨error, rfl, herror⟩
  have pprior := parseItemError_ok.mpr ⟨prior, rfl, hprior⟩
  have ppublication := parsePublicationState_ok.mpr ⟨publication, rfl, hpublication⟩
  have premoval := parseRemovalState_ok.mpr ⟨removal, rfl, hremoval⟩
  have psync := parseFilesystemSyncStatus_ok.mpr ⟨sync, rfl, hsync⟩
  have precovery := parseRecoveryAction_ok.mpr ⟨recovery, rfl, hrecovery⟩
  constructor
  · rw [decodeItem, itemValues, if_pos rfl, journalMembers_zip _ _ (by decide) rfl, ok_bind]
    dsimp only
    rw [premoval, ok_bind, pure_ok, ok_bind]
    rw [asUint64_toNat, demand_some, ok_bind, asInt_toInt, demand_some, ok_bind, asInt_toInt,
      demand_some, ok_bind, asUint64_toNat, demand_some, ok_bind, asInt_toInt, demand_some, ok_bind,
      pstatus, ok_bind, perror, ok_bind, pprior, ok_bind, ppublication, ok_bind, psync, ok_bind,
      precovery, ok_bind, refuse_of_not _ (by simp [hvalid, hprevious])]
    rfl
  · refine (plain_obj_iff _).mpr ?_
    simp only [itemNames, zip_cons_cons, zip_nil_right, forall_mem_cons,
      not_mem_nil, false_imp_iff, implies_true, and_true]
    exact ⟨⟨by decide, plain_uint64 _⟩, ⟨by decide, ascii_of_parse pstatus (by decide)⟩,
      ⟨by decide, ascii_of_parse perror (by decide)⟩, ⟨by decide, plain_int32 _⟩,
      ⟨by decide, ascii_of_parse pprior (by decide)⟩, ⟨by decide, plain_int32 _⟩,
      ⟨by decide, plain_uint64 _⟩, ⟨by decide, ascii_of_parse ppublication (by decide)⟩,
      ⟨by decide, ascii_of_parse premoval (by decide)⟩,
      ⟨by decide, ascii_of_parse psync (by decide)⟩, ⟨by decide, plain_int32 _⟩, by decide,
      ascii_of_parse precovery (by decide)⟩

/-- The items of one entry: strictly increasing, so each passes the decoder's order check. -/
theorem decodeItems_of_encode (h : Library.traverse (encodeItem plan) items = .ok values)
    (hordered : validOrderedFrom plan previous items) :
    decodeItems schemaVersion plan previous values = .ok items ∧
      values.length = items.length ∧ ∀ value ∈ values, Json.Plain value := by
  induction items generalizing values previous with
  | nil =>
    cases h
    exact ⟨rfl, rfl, by simp⟩
  | cons item rest ih =>
    simp only [Library.traverse, bind_ok_iff, pure_ok, Except.ok.injEq] at h
    obtain ⟨value, hvalue, values, hvalues, rfl⟩ := h
    unfold validOrderedFrom at hordered
    split at hordered
    · cases hordered
    · next hok =>
        simp only [Bool.or_eq_true, Bool.not_eq_true', not_or, Bool.not_eq_true,
          Bool.not_eq_false] at hok
        obtain ⟨hdecode, hplain⟩ := decodeItem_of_encode hvalue hok.2
        obtain ⟨hrest, hlen, hplains⟩ := ih hvalues hordered
        refine ⟨?_, by simp [hlen], forall_mem_cons.mpr ⟨hplain, hplains⟩⟩
        rw [decodeItems, hdecode, ok_bind, hrest, ok_bind, pure_ok]

/-! ## Entries -/

theorem ascii_operationId (id : OperationId) : Json.Ascii id.toString := by
  intro b hb
  rw [OperationId.toString, mem_append] at hb
  rcases hb with hb | hb
  · have all : Json.Ascii (ascii "op-") := by decide
    exact all b hb
  · have hdigit := (isDigitByte_iff b).mp (decimal_isDigit _ b hb)
    rw [UInt8.lt_iff_toNat_lt]
    show b.toNat < 128
    omega

/-- The document of one entry, and that the decoder appends exactly this entry. -/
theorem decodeEntry_of_encode (h : encodeEntry readers entry total = .ok (value, total'))
    (hplan : ∀ existing ∈ done, existing.plan.id ≠ entry.plan.id)
    (hid : ∀ existing ∈ done, existing.operationId ≠ entry.operationId) :
    decodeEntry readers schemaVersion done total value = .ok (entry, total') ∧
      Json.Plain value := by
  simp only [encodeEntry, bind_ok_iff, refuse_ok_iff, demand_ok_iff, mapError_ok_iff, exists_const,
    pure_ok, Except.ok.injEq, not_not, not_lt, Prod.mk.injEq] at h
  obtain ⟨hcount, hlifecycle, text, hencode, document, hdocument, -, n, hn, state, hstate, items,
    hitems, rfl, rfl⟩ := h
  obtain ⟨hfits, rfl⟩ := encode_ok.mp hencode
  have hplain := plain_planJson entry.plan hfits
  rw [readers.embedded.parse_write _ hplain, Option.some.injEq] at hdocument
  subst hdocument
  have pstate := parseState_ok.mpr ⟨state, rfl, hstate⟩
  obtain ⟨hdecode, hlen, hplains⟩ :=
    decodeItems_of_encode hitems (validOrdered_of_lifecycle hlifecycle)
  constructor
  · rw [decodeEntry, entryValues, if_neg (by decide), journalMembers_zip _ _ (by decide) rfl, ok_bind]
    dsimp only
    rw [OperationId.parse_toString, demand_some, ok_bind, pure_ok, ok_bind]
    rw [decode_of_encode readers.plan hencode, mapError_ok_iff.mpr rfl, ok_bind, refuse_of_not _ (by simpa using hplan), ok_bind, refuse_of_not _ (by simpa using hid),
      ok_bind, pstate, ok_bind, asInt64_toInt, demand_some, ok_bind, arrayElements, ok_bind,
      journalTimePoint, timePoint_ok.mpr (epochNanoseconds_ok.mp hn), ok_bind, hlen,
      refuse_of_not _ (Nat.not_lt.mpr hcount), ok_bind, hdecode, ok_bind]
    rw [refuse_of_not _ (not_not.mpr hlifecycle)]
    rfl
  · refine (plain_obj_iff _).mpr ?_
    simp only [entryNames, zip_cons_cons, zip_nil_right, forall_mem_cons,
      not_mem_nil, false_imp_iff, implies_true, and_true]
    exact ⟨⟨by decide, ascii_operationId _⟩, ⟨by decide, hplain⟩,
      ⟨by decide, ascii_of_parse pstate (by decide)⟩, ⟨by decide, plain_int64 n⟩, by decide,
      (plain_arr_iff _).mpr hplains⟩

theorem decodeEntries_of_encode (done : List OperationJournalEntry)
    (h : encodeEntries readers entries total = .ok values)
    (hplan : ((done ++ entries).map (·.plan.id)).Nodup)
    (hid : ((done ++ entries).map (·.operationId)).Nodup) :
    decodeEntries readers schemaVersion done total values = .ok (done ++ entries) ∧
      values.length = entries.length ∧ ∀ value ∈ values, Json.Plain value := by
  induction entries generalizing done total values with
  | nil =>
    cases h
    exact ⟨by rw [append_nil]; rfl, rfl, by simp⟩
  | cons entry rest ih =>
    simp only [encodeEntries, bind_ok_iff, Prod.exists, pure_ok, Except.ok.injEq] at h
    obtain ⟨value, total', hvalue, values, hvalues, rfl⟩ := h
    have fresh : ∀ {β : Type} (f : OperationJournalEntry → β),
        ((done ++ entry :: rest).map f).Nodup → ∀ existing ∈ done, f existing ≠ f entry := by
      intro β f hnd existing hmem heq
      rw [map_append, nodup_append] at hnd
      exact hnd.2.2 (f existing) (mem_map.mpr ⟨_, hmem, rfl⟩) (f entry)
        (mem_map.mpr ⟨entry, mem_cons_self, rfl⟩) heq
    obtain ⟨hdecode, hplain⟩ := decodeEntry_of_encode hvalue (fresh _ hplan) (fresh _ hid)
    have happ : done ++ entry :: rest = (done ++ [entry]) ++ rest := by simp
    rw [happ] at hplan hid ⊢
    obtain ⟨hrest, hlen, hplains⟩ := ih (done ++ [entry]) hvalues hplan hid
    refine ⟨?_, by simp [hlen], forall_mem_cons.mpr ⟨hplain, hplains⟩⟩
    rw [decodeEntries, hdecode, ok_bind]
    exact hrest

/-! ## The journal -/

/-- What the journal keeps true of its entries and its sequence. -/
structure Coherent (entries : List OperationJournalEntry) (nextSequence : UInt64) : Prop where
  plans : (entries.map (·.plan.id)).Nodup
  ids : (entries.map (·.operationId)).Nodup
  below : ∀ entry ∈ entries, entry.operationId.sequence < nextSequence

theorem stdMax_lt (ha : a < bound) (hb : b < bound) : stdMax a b < bound := by
  unfold stdMax
  split
  · exact hb
  · exact ha

theorem foldl_stdMax_lt (hs : start < bound)
    (h : ∀ entry ∈ entries, entry.operationId.sequence < bound) :
    entries.foldl (fun maximum entry => stdMax maximum (operationIdSequence entry.operationId))
      start < bound := by
  induction entries generalizing start with
  | nil => exact hs
  | cons entry rest ih =>
    obtain ⟨he, hrest⟩ := forall_mem_cons.mp h
    rw [foldl_cons, operationIdSequence_eq]
    exact ih (stdMax_lt hs he) hrest

/-- The largest sequence of a coherent list is below `next`, so adding one cannot wrap. -/
theorem maximumSequence_lt {next : UInt64} (h : Coherent entries next) (hn : next ≠ 0) :
    maximumSequence entries < next := by
  refine foldl_stdMax_lt ?_ h.below
  rw [UInt64.lt_iff_toNat_lt]
  have : next.toNat ≠ 0 := fun h0 => hn (UInt64.toNat_inj.mp h0)
  show 0 < next.toNat
  omega

theorem succ_le_of_lt {maximum next : UInt64} (h : maximum < next) :
    maximum ≠ UInt64.ofNat (2 ^ 64 - 1) ∧ ¬next < maximum + 1 := by
  rw [UInt64.lt_iff_toNat_lt] at h
  have hn := next.toNat_lt
  constructor
  · rintro rfl
    have : (UInt64.ofNat (2 ^ 64 - 1)).toNat = 2 ^ 64 - 1 := by decide
    omega
  · rw [UInt64.lt_iff_toNat_lt, UInt64.toNat_add]
    have : (1 : UInt64).toNat = 1 := rfl
    omega

/-- The journal never writes what it would refuse to open: on coherent entries the decoder
    returns exactly what was encoded. -/
theorem decode_encode (readers : Readers) {next : UInt64} (hcoherent : Coherent entries next)
    (h : encode readers entries next = .ok text) :
    decode readers text = .ok ⟨entries, next, false⟩ := by
  simp only [encode, bind_ok_iff, refuse_ok_iff, exists_const, pure_ok, Except.ok.injEq, not_or,
    not_lt] at h
  obtain ⟨⟨hcount, hnext⟩, values, hvalues, hsize, rfl⟩ := h
  obtain ⟨hentries, hlen, hplains⟩ :=
    decodeEntries_of_encode [] hvalues hcoherent.plans hcoherent.ids
  have hplain : Json.Plain (.obj (rootNames.zip
      [.int schemaVersion, .int next.toNat, .arr values])) := by
    refine (plain_obj_iff _).mpr ?_
    simp only [rootNames, zip_cons_cons, zip_nil_right, forall_mem_cons,
      not_mem_nil, false_imp_iff, implies_true, and_true]
    exact ⟨⟨by decide, plain_int (by decide) (by decide)⟩, ⟨by decide, plain_uint64 next⟩,
      by decide, (plain_arr_iff _).mpr hplains⟩
  obtain ⟨hmax, hle⟩ := succ_le_of_lt (maximumSequence_lt hcoherent hnext)
  rw [decode, refuse_of_not _ (Nat.not_lt.mpr hsize), ok_bind, readers.journal.parse_write _ hplain]
  dsimp only
  have hversion : ((rootNames.zip [.int schemaVersion, .int next.toNat, .arr values]).lookup
      (ascii "version")).bind asUint = some schemaVersion := rfl
  rw [decodeMembers, hversion, demand_some, ok_bind, refuse_of_not _ (by decide), ok_bind, rootValues,
    if_pos rfl, journalMembers_zip _ _ (by decide) rfl, ok_bind]
  dsimp only
  rw [asUint64_toNat, demand_some, ok_bind, refuse_of_not _ hnext, ok_bind, pure_ok, ok_bind]
  rw [arrayElements, ok_bind, hlen, refuse_of_not _ (Nat.not_lt.mpr hcount), ok_bind, hentries,
    ok_bind, nil_append, refuse_of_not _ hmax, ok_bind, if_pos rfl, refuse_of_not _ hle]
  rfl

/-! ## What the decoder guarantees -/

theorem decodeEntry_ok (h : decodeEntry readers version done total value = .ok (entry, total')) :
    (∀ existing ∈ done, existing.plan.id ≠ entry.plan.id) ∧
    (∀ existing ∈ done, existing.operationId ≠ entry.operationId) ∧ validEntryLifecycle entry := by
  simp only [decodeEntry, bind_ok_iff, refuse_ok_iff, exists_const, pure_ok, Except.ok.injEq,
    Prod.exists, Prod.mk.injEq, not_exists, not_and, not_not] at h
  obtain ⟨id, planValue, stateValue, updatedAtValue, itemsValue, -, plan, -, hplan, hid, state, -,
    nanoseconds, -, items, -, updatedAt, -, -, results, -, hlifecycle, rfl, -⟩ := h
  exact ⟨hplan, hid, hlifecycle⟩

theorem nodup_map_append_one (f : α → β) (hnd : (done.map f).Nodup) (hnew : ∀ b ∈ done, f b ≠ f a) :
    ((done ++ [a]).map f).Nodup := by
  rw [map_append, nodup_append]
  refine ⟨hnd, nodup_singleton _, ?_⟩
  intro b hb c hc
  obtain ⟨b, hmem, rfl⟩ := mem_map.mp hb
  rw [map_singleton, mem_singleton] at hc
  rw [hc]
  exact hnew b hmem

theorem decodeEntries_ok (h : decodeEntries readers version done total values = .ok entries)
    (hplan : (done.map (·.plan.id)).Nodup) (hid : (done.map (·.operationId)).Nodup)
    (hlifecycle : ∀ entry ∈ done, validEntryLifecycle entry) :
    (entries.map (·.plan.id)).Nodup ∧ (entries.map (·.operationId)).Nodup ∧
    ∀ entry ∈ entries, validEntryLifecycle entry := by
  induction values generalizing done total with
  | nil =>
    cases h
    exact ⟨hplan, hid, hlifecycle⟩
  | cons value rest ih =>
    rw [decodeEntries, bind_ok_iff] at h
    obtain ⟨⟨entry, total'⟩, hentry, hrest⟩ := h
    obtain ⟨hnewPlan, hnewId, hvalid⟩ := decodeEntry_ok hentry
    refine ih hrest (nodup_map_append_one _ hplan hnewPlan) (nodup_map_append_one _ hid hnewId) ?_
    intro existing hmem
    rw [mem_append, mem_singleton] at hmem
    rcases hmem with hmem | rfl
    · exact hlifecycle existing hmem
    · exact hvalid

theorem le_stdMax (a b : UInt64) : a ≤ stdMax a b ∧ b ≤ stdMax a b := by
  unfold stdMax
  split
  · next h => exact ⟨UInt64.le_of_lt h, UInt64.le_refl b⟩
  · next h => exact ⟨UInt64.le_refl a, UInt64.not_lt.mp h⟩

theorem le_foldl_stdMax (entries : List OperationJournalEntry) (start : UInt64) :
    let fold := entries.foldl
      (fun maximum entry => stdMax maximum (operationIdSequence entry.operationId)) start
    start ≤ fold ∧ ∀ entry ∈ entries, entry.operationId.sequence ≤ fold := by
  induction entries generalizing start with
  | nil => exact ⟨UInt64.le_refl start, by simp⟩
  | cons entry rest ih =>
    have hmax := le_stdMax start entry.operationId.sequence
    obtain ⟨hstart, hrest⟩ := ih (stdMax start entry.operationId.sequence)
    rw [foldl_cons, operationIdSequence_eq]
    exact ⟨UInt64.le_trans hmax.1 hstart,
      forall_mem_cons.mpr ⟨UInt64.le_trans hmax.2 hstart, hrest⟩⟩

theorem lt_succ_of_le {sequence maximum : UInt64} (h : sequence ≤ maximum)
    (hmax : maximum ≠ UInt64.ofNat (2 ^ 64 - 1)) : sequence < maximum + 1 := by
  have hlt : maximum.toNat < 2 ^ 64 - 1 := by
    have hbound := maximum.toNat_lt
    have hne : maximum.toNat ≠ 2 ^ 64 - 1 := by
      intro heq
      exact hmax (UInt64.toNat_inj.mp heq)
    omega
  rw [UInt64.le_iff_toNat_le] at h
  rw [UInt64.lt_iff_toNat_lt, UInt64.toNat_add]
  have : (1 : UInt64).toNat = 1 := rfl
  omega

theorem decodeMembers_ok {members : List (Bytes × Json)}
    (h : decodeMembers readers members = .ok decoded) :
    Coherent decoded.entries decoded.nextOperationSequence ∧
    ∀ entry ∈ decoded.entries, validEntryLifecycle entry := by
  simp only [decodeMembers, bind_ok_iff, refuse_ok_iff, exists_const, Prod.exists] at h
  obtain ⟨version, -, -, next, entriesValue, -, values, -, -, entries, hentries, hmax, h⟩ := h
  obtain ⟨hplans, hids, hlifecycle⟩ :=
    decodeEntries_ok hentries nodup_nil nodup_nil (by simp)
  have hle := (le_foldl_stdMax entries 0).2
  have hbelow : ∀ entry ∈ entries, entry.operationId.sequence < maximumSequence entries + 1 :=
    fun entry hmem => lt_succ_of_le (hle entry hmem) hmax
  split at h
  · simp only [bind_ok_iff, refuse_ok_iff, exists_const, pure_ok, Except.ok.injEq] at h
    obtain ⟨hnext, rfl⟩ := h
    refine ⟨⟨hplans, hids, fun entry hmem => ?_⟩, hlifecycle⟩
    exact UInt64.lt_of_lt_of_le (hbelow entry hmem) (UInt64.not_lt.mp hnext)
  · cases h
    exact ⟨⟨hplans, hids, hbelow⟩, hlifecycle⟩

/-- Whatever the text, what the decoder returns is coherent and every entry passes the
    lifecycle check. -/
theorem decode_ok (h : decode readers text = .ok decoded) :
    Coherent decoded.entries decoded.nextOperationSequence ∧
    ∀ entry ∈ decoded.entries, validEntryLifecycle entry := by
  rw [decode, bind_ok_iff] at h
  obtain ⟨-, -, h⟩ := h
  split at h
  · exact decodeMembers_ok h
  · cases h

/-- The journal codec round trip. -/
theorem journalCodec_roundTrip (readers : Readers) (entries : List OperationJournalEntry)
    (next : UInt64) (text : Bytes) (hplans : (entries.map (·.plan.id)).Nodup)
    (hids : (entries.map (·.operationId)).Nodup)
    (hbelow : ∀ entry ∈ entries, entry.operationId.sequence < next)
    (h : encode readers entries next = .ok text) :
    decode readers text = .ok ⟨entries, next, false⟩ :=
  decode_encode readers ⟨hplans, hids, hbelow⟩ h

def Readers.reference : Readers :=
  ⟨Json.Reader.reference, Json.Reader.reference, Json.Reader.reference⟩

/-- The copy of `copyPlan`, completed and synced. -/
def copyEntry : OperationJournalEntry where
  operationId := ⟨1, OperationId.positive_one⟩
  plan := copyPlan
  state := .completed
  updatedAt := 5
  itemResults := [⟨0, .succeeded, .none, 0, .none, 0, 3, .published, .notRemoved, .confirmed, 0, .none⟩]

theorem journalCodec_roundTrip_copyEntry :
    ∃ text, decode Readers.reference text = .ok ⟨[copyEntry], 2, false⟩ := by
  have hok : (encode Readers.reference [copyEntry] 2).toBool := by decide +kernel
  obtain ⟨text, henc⟩ : ∃ text, encode Readers.reference [copyEntry] 2 = .ok text := by
    cases he : encode Readers.reference [copyEntry] 2 with
    | ok text => exact ⟨text, rfl⟩
    | error e =>
      rw [he] at hok
      cases hok
  exact ⟨text, journalCodec_roundTrip Readers.reference [copyEntry] 2 text (by decide) (by decide)
    (by decide) henc⟩

end WinCommander.Operations.Journal
