import Mathlib
import IptvProxy.Cache.Program

/-!
# The list of entries

`Entries` walks over the keys with `SCAN`, which returns every key at least once and may return a
key several times; `StatsFromEntries` and `PurgeAll` work on its result. Each returned key makes an
entry of its own, so the list is a set as long as no entry is returned twice
(`entry_list_is_set_iff`).

The commands succeed and the keys do not change meanwhile. The entries with one key are then equal,
so the order in which `sort.Slice` leaves them does not matter.
-/

namespace IptvProxy.Cache

/-- `Entry` -/
structure Entry where
  /-- `Key` -/
  key : String
  /-- `Status` -/
  status : ℤ
  /-- `ContentType` -/
  contentType : String
  /-- `SizeBytes` -/
  sizeBytes : ℕ
  /-- `FetchedAt` -/
  fetchedAt : ℤ
  /-- `ExpiresAt` -/
  expiresAt : ℤ
  /-- `TTLSeconds` -/
  ttlSeconds : ℤ
  /-- `RefreshRegistered` -/
  refreshRegistered : Bool
  /-- `Descriptor` -/
  descriptor : Descriptor
  /-- `ItemCount` -/
  itemCount : ℤ
  /-- `ItemCountKnown` -/
  itemCountKnown : Bool
  /-- `ActiveReaders` -/
  activeReaders : ℕ
  deriving DecidableEq

/-- `Stats` -/
structure Stats where
  /-- `Entries` -/
  entries : ℕ
  /-- `Bytes` -/
  bytes : ℕ
  /-- `RegisteredRefreshes` -/
  registeredRefreshes : ℕ
  /-- `ActiveReaders` -/
  activeReaders : ℕ
  /-- `RetiredGenerations` -/
  retiredGenerations : ℕ
  deriving DecidableEq

variable (r : Redis) (m : Manager)

/-- The body of the loop of `Entries`: a key without a readable manifest is skipped. A legacy entry
has the length of its inline body as its size. -/
def entryOf (key : String) : Option Entry :=
  (r.loadManifest key).map fun manifest =>
    { key := key
      status := manifest.status
      contentType := manifest.contentType
      sizeBytes :=
        if manifest.info.sizeBytes = 0 ∧ manifest.generation = none then
          ((r.hash key).bind Hash.body).elim 0 List.length
        else manifest.info.sizeBytes
      fetchedAt := manifest.info.fetchedAt
      expiresAt := manifest.info.expiresAt
      ttlSeconds := manifest.info.ttlSeconds
      refreshRegistered := (m.specs key).isSome
      descriptor := manifest.descriptor
      itemCount := manifest.info.itemCount
      itemCountKnown := manifest.info.itemCountKnown
      activeReaders := manifest.generation.elim 0 fun g => m.readers (key, g) }

/-- The order of `sort.Slice` in `Entries`. -/
def Entry.before (e e' : Entry) : Prop := e.key ≤ e'.key

instance : DecidableRel Entry.before := fun e e' => inferInstanceAs (Decidable (e.key ≤ e'.key))

/-- `Entries`, for the batches that the steps of `SCAN` return. -/
def entries (batches : List (List String)) : List Entry :=
  (batches.flatten.filterMap (entryOf r m)).insertionSort Entry.before

/-- `StatsFromEntries`; the last three numbers are the sizes of the maps `specs` and `retired` and
the sum of `readers`. -/
def statsFromEntries (registered activeReaders retired : ℕ) (entries : List Entry) : Stats :=
  ⟨entries.length, (entries.map Entry.sizeBytes).sum, registered, activeReaders, retired⟩

/-- The loop of `PurgeAll`: what `replaceNow` leaves behind, the keys it has replaced and its
errors. The source returns the number of these keys. -/
def purgeAll {σ ε : Type} (replaceNow : String → σ → Except ε Unit × σ) :
    List Entry → σ → List String × List (String × ε) × σ
  | [], s => ([], [], s)
  | entry :: entries, s =>
    match replaceNow entry.key s with
    | (.error e, s) =>
      let (replaced, errors, s) := purgeAll replaceNow entries s
      (replaced, (entry.key, e) :: errors, s)
    | (.ok (), s) =>
      let (replaced, errors, s) := purgeAll replaceNow entries s
      (entry.key :: replaced, errors, s)

/-- The key of an entry that can be read. -/
def Readable (key : String) : Prop :=
  hasCachePrefix key = true ∧ (r.loadManifest key).isSome = true

/-- What `SCAN` guarantees while the keys do not change: it returns keys that match the pattern, and
every key that exists at least once. -/
structure Scan (batches : List (List String)) : Prop where
  /-- the pattern -/
  matching : ∀ key ∈ batches.flatten, hasCachePrefix key = true
  /-- every key is returned -/
  complete : ∀ key, Readable r key → key ∈ batches.flatten

/-- The list of entries is a set, and what is computed from it counts every entry once. -/
structure EntryListIsSet (batches : List (List String)) : Prop where
  /-- every readable manifest has one entry -/
  once : ∀ key, Readable r key → ∃ e, entryOf r m key = some e ∧
    (entries r m batches).filter (fun e => e.key = key) = [e]
  /-- and there is no other -/
  readable : ∀ e ∈ entries r m batches, Readable r e.key
  /-- in increasing order of the keys -/
  increasing : (entries r m batches).Pairwise fun e e' => e.key < e'.key
  /-- the statistics count the readable manifests and sum up their sizes -/
  stats : ∀ keys : List String, keys.Nodup → (∀ key, key ∈ keys ↔ Readable r key) →
    ∀ registered activeReaders retired,
      (statsFromEntries registered activeReaders retired (entries r m batches)).entries =
          keys.length ∧
        (statsFromEntries registered activeReaders retired (entries r m batches)).bytes =
          ((keys.filterMap (entryOf r m)).map Entry.sizeBytes).sum
  /-- no entry is replaced twice -/
  purged : ∀ {σ ε : Type} (replaceNow : String → σ → Except ε Unit × σ) (s : σ),
    (purgeAll replaceNow (entries r m batches) s).1.Nodup

variable {r m} {batches : List (List String)} {key : String} {e e' : Entry}

/-! ## Entries -/

instance : Std.Total Entry.before := ⟨fun e e' => le_total e.key e'.key⟩

instance : IsTrans Entry Entry.before := ⟨fun _ _ _ => le_trans⟩

theorem key_of_entryOf (h : entryOf r m key = some e) : e.key = key := by
  obtain ⟨manifest, -, rfl⟩ := Option.map_eq_some_iff.mp h
  rfl

theorem entryOf_isSome : (entryOf r m key).isSome = (r.loadManifest key).isSome := by
  rw [entryOf, Option.isSome_map]

theorem perm_entries (r : Redis) (m : Manager) (batches : List (List String)) :
    (entries r m batches).Perm (batches.flatten.filterMap (entryOf r m)) :=
  List.perm_insertionSort _ _

theorem mem_entries : e ∈ entries r m batches ↔
    ∃ key ∈ batches.flatten, entryOf r m key = some e := by
  rw [(perm_entries r m batches).mem_iff, List.mem_filterMap]

/-- The entries with one key are as many as the times that it is returned. -/
theorem filter_key (keys : List String) (h : entryOf r m key = some e) :
    (keys.filterMap (entryOf r m)).filter (fun e => e.key = key) =
      List.replicate (keys.count key) e := by
  induction keys with
  | nil => rfl
  | cons k keys ih =>
    rw [List.filterMap_cons, List.count_cons]
    by_cases hk : k = key
    · subst hk
      rw [h, beq_self_eq_true, if_pos rfl, List.replicate_succ, ← ih]
      refine List.filter_cons_of_pos ?_
      rw [decide_eq_true_eq, key_of_entryOf h]
    · rw [beq_false_of_ne hk, if_neg Bool.false_ne_true, Nat.add_zero, ← ih]
      cases hentry : entryOf r m k with
      | none => rfl
      | some e' =>
        refine List.filter_cons_of_neg ?_
        rw [decide_eq_true_eq, key_of_entryOf hentry]
        exact hk

theorem filter_entries (h : entryOf r m key = some e) :
    (entries r m batches).filter (fun e => e.key = key) =
      List.replicate (batches.flatten.count key) e := by
  have hperm := (perm_entries r m batches).filter
    fun e => decide (e.key = key)
  rw [filter_key _ h] at hperm
  exact List.perm_replicate.mp hperm

/-- The keys of the entries, in order. -/
theorem keys_filterMap (keys : List String) :
    (keys.filterMap (entryOf r m)).map Entry.key =
      keys.filter fun key => (r.loadManifest key).isSome := by
  induction keys with
  | nil => rfl
  | cons key keys ih =>
    rw [List.filterMap_cons, List.filter_cons, ← entryOf_isSome (m := m)]
    cases hentry : entryOf r m key with
    | none => exact ih
    | some e =>
      rw [Option.isSome_some, if_pos rfl, List.map_cons, ih, key_of_entryOf hentry]

/-- Only keys of entries are replaced, in the order of the list. -/
theorem purged_sublist {σ ε : Type} (replaceNow : String → σ → Except ε Unit × σ)
    (entries : List Entry) (s : σ) :
    (purgeAll replaceNow entries s).1.Sublist (entries.map Entry.key) := by
  induction entries generalizing s with
  | nil => exact .slnil
  | cons entry entries ih =>
    rw [purgeAll, List.map_cons]
    split
    · exact (ih _).cons _
    · exact (ih _).cons_cons _

/-! ## The result -/

/-- No entry is returned twice. -/
def ReturnedOnce (r : Redis) (batches : List (List String)) : Prop :=
  ∀ key, Readable r key → batches.flatten.count key ≤ 1

theorem nodup_keys (hscan : Scan r batches) (h : ReturnedOnce r batches) :
    ((entries r m batches).map Entry.key).Nodup := by
  have hperm := (perm_entries r m batches).map Entry.key
  rw [keys_filterMap] at hperm
  rw [hperm.nodup_iff, List.nodup_iff_count_le_one]
  intro key
  by_cases hkey : Readable r key
  · exact (List.filter_sublist.count_le key).trans (h key hkey)
  · rw [List.count_eq_zero_of_not_mem]
    · exact Nat.zero_le 1
    · intro hmem
      obtain ⟨hmem, hsome⟩ := List.mem_filter.mp hmem
      exact hkey ⟨hscan.matching key hmem, hsome⟩

/-- **The entry list is a set**, for a scan of unchanging keys, if and only if no entry is returned
twice. -/
theorem entry_list_is_set_iff (hscan : Scan r batches) :
    EntryListIsSet r m batches ↔ ReturnedOnce r batches := by
  constructor
  · intro h key hkey
    obtain ⟨e, he, hfilter⟩ := h.once key hkey
    rw [filter_entries he] at hfilter
    have hlength := congrArg List.length hfilter
    rw [List.length_replicate] at hlength
    exact hlength.le
  · intro h
    have hnodup := nodup_keys (m := m) hscan h
    have hreadable : ∀ e ∈ entries r m batches, Readable r e.key := by
      intro e he
      obtain ⟨key, hmem, hentry⟩ := mem_entries.mp he
      rw [key_of_entryOf hentry]
      exact ⟨hscan.matching key hmem, by rw [← entryOf_isSome (m := m), hentry]; rfl⟩
    refine ⟨?_, hreadable, ?_, ?_, ?_⟩
    · intro key hkey
      obtain ⟨e, he⟩ := Option.isSome_iff_exists.mp ((entryOf_isSome (m := m)).trans hkey.2)
      refine ⟨e, he, ?_⟩
      rw [filter_entries he, Nat.le_antisymm (h key hkey)
        (List.count_pos_iff.mpr (hscan.complete key hkey))]
      rfl
    · have hsorted : (entries r m batches).Pairwise Entry.before :=
        List.pairwise_insertionSort _ _
      rw [List.Nodup, List.pairwise_map] at hnodup
      exact (hsorted.and hnodup).imp fun h => lt_of_le_of_ne h.1 h.2
    · intro keys hkeys hall registered activeReaders retired
      have hperm : (entries r m batches).Perm (keys.filterMap (entryOf r m)) := by
        have hkeysOf : (keys.filterMap (entryOf r m)).map Entry.key = keys := by
          rw [keys_filterMap, List.filter_eq_self]
          exact fun key hkey => ((hall key).mp hkey).2
        refine (List.perm_ext_iff_of_nodup hnodup.of_map (hkeysOf ▸ hkeys).of_map).mpr fun e => ?_
        rw [mem_entries, List.mem_filterMap]
        constructor
        · rintro ⟨key, hmem, hentry⟩
          have hkey := hreadable e (mem_entries.mpr ⟨key, hmem, hentry⟩)
          rw [key_of_entryOf hentry] at hkey
          exact ⟨key, (hall key).mpr hkey, hentry⟩
        · rintro ⟨key, hmem, hentry⟩
          exact ⟨key, hscan.complete key ((hall key).mp hmem), hentry⟩
      refine ⟨?_, (hperm.map Entry.sizeBytes).sum_eq⟩
      rw [statsFromEntries]
      dsimp only
      rw [hperm.length_eq, ← List.length_map Entry.key, keys_filterMap, List.filter_eq_self.mpr]
      exact fun key hkey => ((hall key).mp hkey).2
    · intro σ ε replaceNow s
      exact (purged_sublist replaceNow _ s).nodup hnodup

/-! ## A key that is returned twice -/

/-- One entry of two bytes. -/
def oneEntry : Redis where
  hash := fun key => if key = "iptv:cache:p:e" then
    some ⟨⟨200, "application/json", ⟨0, 3600, 3600, 2, 0, false⟩, ⟨"p", "e", "", []⟩, some 1, 1⟩,
      none⟩
    else none
  chunks := .empty
  locks := .empty

theorem readable_oneEntry : Readable oneEntry key ↔ key = "iptv:cache:p:e" := by
  constructor
  · rintro ⟨-, hsome⟩
    by_contra hne
    rw [Redis.loadManifest, show oneEntry.hash key = none from if_neg hne] at hsome
    cases hsome
  · rintro rfl
    exact ⟨by decide +kernel, rfl⟩

/-- Two steps of `SCAN` return the key. -/
theorem scan_twice : Scan oneEntry [["iptv:cache:p:e"], ["iptv:cache:p:e"]] where
  matching key hkey := by
    simp only [List.flatten_cons, List.flatten_nil, List.append_nil, List.cons_append,
      List.nil_append, List.mem_cons, List.not_mem_nil, or_false, or_self] at hkey
    rw [hkey]
    decide +kernel
  complete key hkey := by
    rw [readable_oneEntry.mp hkey]
    decide

/-- The entry is listed twice, and its bytes are counted twice. -/
theorem entry_listed_twice :
    Scan oneEntry [["iptv:cache:p:e"], ["iptv:cache:p:e"]] ∧
      ¬ EntryListIsSet oneEntry newManager [["iptv:cache:p:e"], ["iptv:cache:p:e"]] := by
  refine ⟨scan_twice, fun h => ?_⟩
  have hstats := h.stats ["iptv:cache:p:e"] (List.nodup_singleton _)
    (fun key => by rw [List.mem_singleton, readable_oneEntry]) 0 0 0
  exact absurd hstats.1 (by decide)

/-- Two entries. -/
def twoEntries : Redis :=
  { oneEntry with
    hash := fun key => oneEntry.hash (if key = "iptv:cache:p:d" then "iptv:cache:p:e" else key) }

theorem readable_twoEntries :
    Readable twoEntries key ↔ key = "iptv:cache:p:e" ∨ key = "iptv:cache:p:d" := by
  constructor
  · rintro ⟨-, hsome⟩
    by_contra hne
    rw [not_or] at hne
    have hnone : twoEntries.hash key = none :=
      (congrArg oneEntry.hash (if_neg hne.2)).trans (if_neg hne.1)
    rw [Redis.loadManifest, hnone] at hsome
    cases hsome
  · rintro (rfl | rfl)
    · exact ⟨by decide +kernel, rfl⟩
    · exact ⟨by decide +kernel, rfl⟩

/-- The second step of `SCAN` returns the key that comes first. -/
theorem entry_list_is_set_sample :
    EntryListIsSet twoEntries newManager [["iptv:cache:p:e"], ["iptv:cache:p:d"]] := by
  have hkeys : ∀ key, key ∈ [["iptv:cache:p:e"], ["iptv:cache:p:d"]].flatten ↔
      key = "iptv:cache:p:e" ∨ key = "iptv:cache:p:d" := by simp
  refine (entry_list_is_set_iff ⟨fun key hkey => ?_, fun key hkey => ?_⟩).mpr fun key hkey => ?_
  · exact (readable_twoEntries.mpr ((hkeys key).mp hkey)).1
  · exact (hkeys key).mpr (readable_twoEntries.mp hkey)
  · rcases readable_twoEntries.mp hkey with rfl | rfl <;> decide

end IptvProxy.Cache
