import IptvProxy.Cache.Lifetime
import IptvProxy.Catalog.Rehydrate

/-!
# The two models of the manager

`Rehydrate` keeps of the cache manager what the pass over the entries reads and writes, and has
bytes for strings; `Cache` has its threads, timers and commands, and compares strings only. With a
character for each byte (`text`), both have the same keys (`cacheKey_shown`), the same check of a
spec (`validateSpec_shown`) and the same registered specs (`Registers`), and the pass makes the same
call for an entry (`rehydrateEntry_answers`).
-/

namespace IptvProxy.Catalog

open Xtream

/-! ## Strings -/

/-- A character for each byte. -/
def text (s : Bytes) : String := String.ofList (s.map fun c => Char.ofNat c.val)

variable {s t : Bytes}

theorem toNat_ofNat_byte (c : Byte) : (Char.ofNat c.val).toNat = c.val := by
  have hvalid : c.val.isValidChar := .inl (c.isLt.trans (by decide))
  rw [Char.toNat_ofNat, if_pos hvalid]

@[simp] theorem ascii_text : ascii (text s) = s := by
  rw [ascii, text, String.toList_ofList, List.map_map]
  conv_rhs => rw [← List.map_id s]
  refine List.map_congr_left fun c _ => ?_
  exact Fin.ext (by simp [toNat_ofNat_byte])

theorem text_injective : Function.Injective text := fun s t h => by
  rw [← @ascii_text s, h, ascii_text]

@[simp] theorem text_inj : text s = text t ↔ s = t := text_injective.eq_iff

@[simp] theorem text_append : text (s ++ t) = text s ++ text t := by
  rw [text, List.map_append, String.ofList_append]
  rfl

@[simp] theorem text_eq_empty : text s = "" ↔ s = [] := by
  rw [← @text_inj s []]
  rfl

theorem text_cachePrefix : text cachePrefix = Cache.cacheKeyPrefix := by decide

theorem text_colon_cons : text (colon :: s) = ":" ++ text s := @text_append [colon] s

theorem hasCachePrefix_text : Cache.hasCachePrefix (text s) = true ↔ cachePrefix <+: s := by
  rw [Cache.hasCachePrefix, String.isPrefixOf, String.startsWith_string_iff, ← text_cachePrefix,
    text, text, String.toList_ofList, String.toList_ofList]
  refine List.prefix_map_iff_of_injective fun c c' h => Fin.ext ?_
  rw [← toNat_ofNat_byte c, h, toNat_ofNat_byte]

/-! ## Specs -/

/-- A descriptor with texts. -/
def Descriptor.shown (d : Descriptor) : Cache.Descriptor where
  providerID := text d.providerID
  endpoint := text d.endpoint
  query := text d.query
  headers := d.headers.map fun h => (text h.1, text h.2)

/-- A spec with texts. -/
def Spec.shown (spec : Spec) : Cache.Spec where
  key := text spec.key
  ttl := spec.ttl
  descriptor := spec.descriptor.shown
  hasFetch := true

theorem cacheKey_shown (d : Descriptor) : d.shown.cacheKey = text d.cacheKey := by
  rw [Cache.Descriptor.cacheKey, Descriptor.cacheKey]
  by_cases hquery : d.query = []
  · simp [Descriptor.shown, hquery, text_cachePrefix, text_colon_cons, String.append_assoc]
  · simp [Descriptor.shown, hquery, text_cachePrefix, text_colon_cons, String.append_assoc]

theorem validateSpec_shown (spec : Spec) :
    Cache.validateSpec spec.shown = none ↔ validateSpec spec = true := by
  have hstart : Cache.hasCachePrefix (text spec.key) = false ↔ ¬cachePrefix <+: spec.key := by
    rw [← hasCachePrefix_text, Bool.not_eq_true]
  rw [Cache.validateSpec, validateSpec]
  by_cases hid : spec.descriptor.providerID = []
  · simp [Spec.shown, Descriptor.shown, hid]
  by_cases hendpoint : spec.descriptor.endpoint = []
  · simp [Spec.shown, Descriptor.shown, hendpoint]
  by_cases hkey : cachePrefix <+: spec.key
  · simp [hstart, hkey, hid, hendpoint, Spec.shown, Descriptor.shown]
  · simp [hstart, hkey, hid, hendpoint, Spec.shown, Descriptor.shown]

theorem cacheSpecFromDescriptor_shown (L : Library) (d : Descriptor) (ttl : ℤ) :
    Cache.cacheSpecFromDescriptor d.shown ttl = (cacheSpecFromDescriptor L d ttl).shown := by
  rw [Cache.cacheSpecFromDescriptor, cacheKey_shown]
  rfl

/-! ## What is registered -/

/-- The memory of a process registers these specs. -/
def Manager.Registers (m : Manager) (memory : Cache.Manager) : Prop :=
  ∀ key, memory.specs (text key) = (m.specs.lookup key).map Spec.shown

variable {m : Manager} {memory : Cache.Manager} {spec : Spec} {key : Bytes}

theorem Manager.Registers.register (h : m.Registers memory) :
    Manager.Registers { m with specs := m.specs.insert spec.key spec }
      (memory.register spec.shown) := by
  intro key
  by_cases hkey : key = spec.key
  · subst hkey
    rw [AList.lookup_insert]
    exact Function.update_self ..
  · rw [AList.lookup_insert_ne hkey, ← h key]
    exact Function.update_of_ne (fun h => hkey (text_injective h)) ..

theorem Manager.Registers.forget (h : m.Registers memory) :
    Manager.Registers { m with stored := m.stored.erase key, specs := m.specs.erase key }
      (memory.forget (text key)) := by
  intro key'
  by_cases hkey : key' = key
  · subst hkey
    rw [AList.lookup_erase]
    exact Function.update_self ..
  · rw [AList.lookup_erase_ne hkey, ← h key']
    exact Function.update_of_ne (fun h => hkey (text_injective h)) ..

/-! ## The pass -/

variable (L : Library) (jsonText : Bytes → Bytes)

/-- What a call does to the manager, and what the pass reports. -/
inductive Answers (m : Manager) : Cache.Call → Manager × Outcome → Prop where
  | remove (key : Bytes) : Answers m (.remove (text key)) (removeEntry m key)
  | register {spec : Spec} {m' : Manager} (h : m.register spec = .ok m') :
    Answers m (.register spec.shown) (m', .registered)
  | registerFailed {spec : Spec} {e : CacheError} (h : m.register spec = .error e) :
    Answers m (.register spec.shown) (m, .problem (.cache e))
  | migrate {key : Bytes} {spec : Spec} {m' : Manager}
      (h : m.migrateLegacy jsonText key spec = .ok m') :
    Answers m (.migrateLegacy (text key) spec.shown) (m', .registered)
  | migrateFailed {key : Bytes} {spec : Spec} {e : CacheError}
      (h : m.migrateLegacy jsonText key spec = .error e) :
    Answers m (.migrateLegacy (text key) spec.shown) (m, .problem (.cache e))

/-- `legacyCacheDescriptor`, for a text -/
def legacyText (key : String) : Option Cache.Descriptor :=
  (legacyCacheDescriptor L (ascii key)).map Descriptor.shown

/-- `isCacheable`, for a descriptor with texts; `none` if its query is malformed. -/
def cacheableText (d : Cache.Descriptor) : Option Bool :=
  match Values.parse (ascii d.query) with
  | (_, false) => none
  | (query, true) => some (isCacheable (ascii d.endpoint) query)

variable {L jsonText} {entry : Entry} {manifest : Cache.Manifest}

theorem entryDescriptor_shown (hdescriptor : manifest.descriptor = entry.descriptor.shown) :
    Cache.entryDescriptor (legacyText L) (text entry.key) manifest =
      (if entry.descriptor.providerID = [] ∨ entry.descriptor.endpoint = [] then
        legacyCacheDescriptor L entry.key else some entry.descriptor).map Descriptor.shown := by
  simp only [Cache.entryDescriptor, hdescriptor, Descriptor.shown, text_eq_empty]
  split
  · rw [legacyText, ascii_text]
  · rfl

/-- **The pass makes the calls of the process.** For an entry that it skips there is no call. -/
theorem rehydrateEntry_answers (hdescriptor : manifest.descriptor = entry.descriptor.shown)
    (hseconds : manifest.info.ttlSeconds = entry.ttlSeconds)
    (hrange : int64 (entry.ttlSeconds * second) = entry.ttlSeconds * second) :
    match Cache.rehydrateEntry (legacyText L) cacheableText (text entry.key) manifest with
    | none => ∃ p, rehydrateEntry L jsonText m entry = (m, .problem p)
    | some call => Answers jsonText m call (rehydrateEntry L jsonText m entry) := by
  rw [Cache.rehydrateEntry, entryDescriptor_shown hdescriptor, rehydrateEntry]
  cases hd : if entry.descriptor.providerID = [] ∨ entry.descriptor.endpoint = [] then
      legacyCacheDescriptor L entry.key else some entry.descriptor with
  | none => exact ⟨.legacyKey, rfl⟩
  | some d =>
    cases hq : Values.parse d.query with
    | mk query wellFormed =>
    have hcacheable : cacheableText d.shown =
        if wellFormed then some (isCacheable d.endpoint query) else none := by
      rw [cacheableText, Descriptor.shown, ascii_text, ascii_text, hq]
      cases wellFormed <;> rfl
    rw [Option.map_some, Option.bind_eq_bind, Option.bind_some, hcacheable]
    dsimp only
    rw [hq]
    cases wellFormed with
    | false => exact ⟨.query, rfl⟩
    | true =>
      have hlifetime : manifest.info.ttlSeconds * Cache.second =
          int64 (entry.ttlSeconds * second) := (congrArg (· * second) hseconds).trans hrange.symm
      have hlegacy : (manifest.descriptor.providerID = "" ∨ manifest.descriptor.endpoint = "") ↔
          entry.descriptor.providerID = [] ∨ entry.descriptor.endpoint = [] := by
        rw [hdescriptor]
        exact or_congr text_eq_empty text_eq_empty
      rw [if_pos rfl, Option.bind_eq_bind, Option.bind_some]
      simp only [hlifetime, hlegacy, cacheSpecFromDescriptor_shown L]
      generalize int64 (entry.ttlSeconds * second) = ttl
      by_cases hremove : isCacheable d.endpoint query = false ∨ ttl ≤ 0
      · rw [if_pos hremove]
        dsimp only
        rcases hremove with h | h
        · rw [if_pos h]
          exact .remove _
        · rw [if_pos h, ite_self]
          exact .remove _
      · obtain ⟨hcache, hpositive⟩ := not_or.mp hremove
        have hkey : text entry.key ≠ (cacheSpecFromDescriptor L d ttl).shown.key ↔
          entry.key ≠ (cacheSpecFromDescriptor L d ttl).key := not_congr text_inj
        simp only [if_neg hremove, if_neg hcache, if_neg hpositive, hkey]
        by_cases hmigrate : (entry.descriptor.providerID = [] ∨ entry.descriptor.endpoint = []) ∨
            entry.key ≠ (cacheSpecFromDescriptor L d ttl).key
        · rw [if_pos hmigrate, if_pos hmigrate]
          dsimp only
          cases h : m.migrateLegacy jsonText entry.key (cacheSpecFromDescriptor L d ttl) with
          | error e => exact .migrateFailed h
          | ok m' => exact .migrate h
        · rw [if_neg hmigrate, if_neg hmigrate]
          dsimp only
          cases h : m.register (cacheSpecFromDescriptor L d ttl) with
          | error e => exact .registerFailed h
          | ok m' => exact .register h

end IptvProxy.Catalog
