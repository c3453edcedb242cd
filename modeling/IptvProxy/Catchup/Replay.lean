import IptvProxy.Catchup.Direct
import IptvProxy.Lib.Reader

/-!
# The body behind the probe

`probeCatchupResponse` of `internal/proxy/catchup.go` once more, with the body that it reads from
and puts back. The prefix is read whatever pieces the body comes in, searched for a packet, and what
is kept of it is read again before the rest (`probe_replays`).
-/

namespace IptvProxy.Catchup

open Xtream

/-- `catchupProbeBytes` -/
def catchupProbeBytes : ℕ := 1024

/-- A provider's response with its body. -/
structure Answered where
  /-- the status and headers -/
  resp : Response
  /-- the number in the header `Content-Length` -/
  lengthHeader : Option ℕ
  /-- `Body` -/
  body : Reader Byte Bytes

/-- What `probeCatchupResponse` returns. -/
structure Verdict where
  /-- `accepted` -/
  accepted : Bool
  /-- `detectedHLS` -/
  detectedHLS : Bool
  /-- `reason` -/
  reason : String
  /-- `err` -/
  err : Option Bytes
  deriving DecidableEq

/-- `replayReadCloser`: some bytes before the rest of the body. -/
def Answered.replay (a : Answered) (start : Bytes) (rest : Reader Byte Bytes) : Answered :=
  { a with body := .append (.ofList start) rest }

/-- The declared length after the first bytes have been dropped. -/
def Answered.shorten (a : Answered) (offset : ℕ) : Answered :=
  if 0 < offset ∧ 0 ≤ a.resp.contentLength then
    { a with
      resp := { a.resp with contentLength := a.resp.contentLength - offset }
      lengthHeader := none }
  else a

/-- `probeCatchupResponse`, with the response as it leaves it. `room` is how much room the buffer of
`io.ReadAll` has. -/
def probeBody (room : ℕ → ℕ) (a : Answered) (target : TargetURL) (range : Bytes) :
    Verdict × Answered :=
  if a.resp.status ≠ 200 ∧ a.resp.status ≠ 206 then (⟨false, false, "non-success status", none⟩, a)
  else if isHLSResponse a.resp target then (⟨true, true, "hls", none⟩, a)
  else if a.resp.method = .head then (⟨true, false, "head", none⟩, a)
  else match a.body.readLimited room catchupProbeBytes [] with
    | (_, some readErr, rest) =>
      (⟨false, false, "prefix read failed", some readErr⟩, { a with body := rest })
    | (start, none, rest) =>
      if start = [] then (⟨false, false, "empty success body", none⟩, { a with body := rest })
      else if catchupLooksLikeDocument a.resp.contentType start then
        (⟨false, false, "HTML/JSON/XML success body", none⟩, a.replay start rest)
      else if a.resp.status = 206 ∧ trimSpace range ≠ [] then
        (⟨true, false, "partial archive", none⟩, a.replay start rest)
      else match findMPEGTSSync start with
        | none =>
          (⟨false, false, "no MPEG-TS sync in successful response", none⟩, a.replay start rest)
        | some offset =>
          (⟨true, false, "mpeg-ts", none⟩, (a.replay (start.drop offset) rest).shorten offset)

/-- A packet starts at the offset, as far as the bytes show. -/
def SyncAt (start : Bytes) (offset : ℕ) : Prop :=
  start[offset]? = some 0x47 ∧ start[offset + 188]? = some 0x47 ∧
    (offset + 376 < start.length → start[offset + 376]? = some 0x47)

/-- The declared lengths are those of the body, if it does not fail. -/
structure Answered.Declared (a : Answered) : Prop where
  /-- `ContentLength` -/
  length : a.body.fault = none → 0 ≤ a.resp.contentLength →
    a.resp.contentLength = a.body.contents.length
  /-- the header, which is only there if the length is known -/
  header : ∀ n ∈ a.lengthHeader, a.resp.contentLength = n

variable {room : ℕ → ℕ} {a : Answered} {target : TargetURL} {range start : Bytes}
  {rest : Reader Byte Bytes} {offset : ℕ}

/-- The search finds the first packet. -/
theorem findMPEGTSSync_eq_some (h : findMPEGTSSync start = some offset) :
    IsLeast {o | SyncAt start o} offset := by
  have htest : ∀ o, (start[o]? = some 0x47 && start[o + 188]? = some 0x47 &&
      (start[o + 376]? = none || start[o + 376]? = some 0x47) : Bool) = true ↔ SyncAt start o := by
    intro o
    simp only [Bool.and_eq_true, Bool.or_eq_true, decide_eq_true_eq, SyncAt, and_assoc,
      List.getElem?_eq_none_iff, ← Nat.not_lt]
    tauto
  rw [findMPEGTSSync, List.find?_range_eq_some] at h
  obtain ⟨hsync, -, hbefore⟩ := h
  refine ⟨(htest offset).mp hsync, fun o ho => Nat.not_lt.mp fun hlt => ?_⟩
  have hnone := hbefore o hlt
  rw [(htest o).mpr ho] at hnone
  cases hnone

theorem contents_replay (a : Answered) (start : Bytes) (rest : Reader Byte Bytes) :
    (a.replay start rest).body.contents = start ++ rest.contents ∧
      (a.replay start rest).body.fault = rest.fault := by
  have hstart : (Reader.ofList start : Reader Byte Bytes).contents = start := by
    unfold Reader.ofList
    split
    · next h => rw [h]; rfl
    · simp [Reader.contents]
  exact ⟨congrArg (· ++ rest.contents) hstart, rfl⟩

@[simp] theorem body_shorten (a : Answered) (offset : ℕ) : (a.shorten offset).body = a.body := by
  unfold Answered.shorten
  split <;> rfl

/-- The declared length stays that of the body. -/
theorem declared_shorten (h : a.Declared) {start : Bytes} (hoffset : offset ≤ start.length)
    (hbody : start ++ rest.contents = a.body.contents) (hfault : rest.fault = a.body.fault) :
    ((a.replay (start.drop offset) rest).shorten offset).Declared := by
  have hlength : ((start.drop offset ++ rest.contents).length : ℤ) =
      a.body.contents.length - offset := by
    rw [← hbody, List.length_append, List.length_append, List.length_drop]
    omega
  obtain ⟨hcontents, hfault'⟩ := contents_replay a (start.drop offset) rest
  constructor
  · intro hend hdeclared
    rw [body_shorten] at hend ⊢
    rw [hfault', hfault] at hend
    rw [hcontents, hlength]
    unfold Answered.shorten at hdeclared ⊢
    split
    · next hcut => exact congrArg (· - (offset : ℤ)) (h.length hend hcut.2)
    · next hcut =>
      rw [if_neg hcut] at hdeclared
      have hzero : offset = 0 := by
        by_contra hne
        exact hcut ⟨Nat.pos_of_ne_zero hne, hdeclared⟩
      have hsame := h.length hend hdeclared
      change a.resp.contentLength = _
      rw [hsame, hzero]
      omega
  · intro n hn
    unfold Answered.shorten at hn ⊢
    split at hn
    · cases hn
    · next hcut =>
      rw [if_neg hcut]
      exact h.header n hn

/-- What is read again, and then the rest. -/
theorem readAll_replay {room : ℕ → ℕ} (a : Answered) (start : Bytes) (rest : Reader Byte Bytes) :
    (a.replay start rest).body.readAll room [] = (start ++ rest.contents, rest.fault) := by
  obtain ⟨hcontents, hfault⟩ := contents_replay a start rest
  rw [Reader.readAll_eq, hcontents, hfault]
  rfl

/-- **The probe replays the archive.** What can be read afterwards of an accepted response that is
neither a playlist nor without a body is the body without what comes before the first packet in the
prefix, and all of it for a part that was asked for; a length that is still declared is that of what
is left. Of a rejected response everything can be read, unless reading failed. -/
theorem probe_replays (room : ℕ → ℕ) (a : Answered) (target : TargetURL) (range : Bytes)
    (h : a.Declared) :
    ((probeBody room a target range).1.accepted = true →
      (probeBody room a target range).1.detectedHLS = false → a.resp.method ≠ .head →
      (∃ o, (if a.resp.status = 206 ∧ trimSpace range ≠ [] then o = 0
          else IsLeast {o | SyncAt (a.body.contents.take catchupProbeBytes) o} o) ∧
        ∀ room', (probeBody room a target range).2.body.readAll room' [] =
          (a.body.contents.drop o, a.body.fault)) ∧
      (probeBody room a target range).2.Declared) ∧
    ((probeBody room a target range).1.accepted = false →
      (probeBody room a target range).1.err = none → a.body.contents ≠ [] →
      ∀ room', (probeBody room a target range).2.body.readAll room' [] =
        (a.body.contents, a.body.fault)) := by
  unfold probeBody
  split
  · exact ⟨nofun, fun _ _ _ room' => Reader.readAll_eq room' a.body []⟩
  · split
    · exact ⟨fun _ hhls => (nomatch hhls), nofun⟩
    · split
      · next hhead => exact ⟨fun _ _ hget => absurd hhead hget, nofun⟩
      · split
        · exact ⟨nofun, fun _ herr => (nomatch herr)⟩
        · next start rest hread =>
          obtain ⟨hbody, hfault, hprefix⟩ :=
            Reader.readLimited_spec room catchupProbeBytes a.body [] (Nat.zero_le _) hread
          have hstart : start = a.body.contents.take catchupProbeBytes := hprefix rfl
          rw [List.nil_append] at hbody
          have hall : ∀ room', (a.replay start rest).body.readAll room' [] =
              (a.body.contents, a.body.fault) := by
            intro room'
            rw [readAll_replay, hbody, hfault]
          split
          · next hempty =>
            -- nothing was read, so nothing is there
            refine ⟨nofun, fun _ _ hne => absurd ?_ hne⟩
            rw [hstart, List.take_eq_nil_iff] at hempty
            exact hempty.resolve_left (by decide)
          · split
            · exact ⟨nofun, fun _ _ _ => hall⟩
            · split
              · next hpart =>
                refine ⟨fun _ _ _ => ⟨⟨0, rfl, hall⟩, ?_⟩, nofun⟩
                · have hdeclared := declared_shorten h (Nat.zero_le start.length) hbody hfault
                  rwa [List.drop_zero, Answered.shorten, if_neg (by simp)] at hdeclared
              · next hwhole =>
                split
                · exact ⟨nofun, fun _ _ _ => hall⟩
                · next offset hsync =>
                  have hleast := findMPEGTSSync_eq_some hsync
                  have hle : offset ≤ start.length := by
                    have hsome := hleast.1.1
                    exact Nat.le_of_lt (List.getElem?_eq_some_iff.mp hsome).1
                  refine ⟨fun _ _ _ => ⟨⟨offset, ?_, ?_⟩,
                    declared_shorten h hle hbody hfault⟩, nofun⟩
                  · rw [← hstart]
                    exact hleast
                  · intro room'
                    dsimp only
                    rw [body_shorten, readAll_replay, hfault, ← hbody,
                      List.drop_append_of_le_length hle]

/-- This is the probe of the negotiation, with the prefix that it reads. -/
theorem probe_eq (room : ℕ → ℕ) (a : Answered) (target : TargetURL) (range : Bytes) :
    let read : Except Bytes Bytes := match a.body.readLimited room catchupProbeBytes [] with
      | (_, some readErr, _) => .error readErr
      | (start, none, _) => .ok start
    (probe a.resp target range read).accepted = (probeBody room a target range).1.accepted ∧
      (probe a.resp target range read).detectedHLS =
        (probeBody room a target range).1.detectedHLS ∧
      (probe a.resp target range read).err = (probeBody room a target range).1.err := by
  dsimp only
  unfold probe probeBody probePrefix
  split
  · exact ⟨rfl, rfl, rfl⟩
  · split
    · exact ⟨rfl, rfl, rfl⟩
    · split
      · exact ⟨rfl, rfl, rfl⟩
      · rcases a.body.readLimited room catchupProbeBytes [] with ⟨start, _ | readErr, rest⟩
        · dsimp only
          split
          · exact ⟨rfl, rfl, rfl⟩
          · split
            · exact ⟨rfl, rfl, rfl⟩
            · split
              · exact ⟨rfl, rfl, rfl⟩
              · cases findMPEGTSSync start <;> exact ⟨rfl, rfl, rfl⟩
        · exact ⟨rfl, rfl, rfl⟩

/-- Two bytes of a packet, and then a packet and a byte, in three pieces. -/
def midPacket : Answered where
  resp := ⟨200, ascii "video/mp2t", 191, .get, ascii "/timeshift/a/b/60/2024-01-01:10-00/7.ts"⟩
  lengthHeader := some 191
  body := .source [[1], 2 :: 0x47 :: List.replicate 100 0, List.replicate 87 0 ++ [0x47]] none false

/-- Where it has been asked for. -/
def midPacketTarget : TargetURL where
  scheme := ascii "https"
  host := ascii "example.com"
  path := ascii "/timeshift/a/b/60/2024-01-01:10-00/7.ts"
  rawQuery := []
  rawPath := []
  forceQuery := false
  hasScheme := by decide
  hasHost := by decide

/-- The two bytes are dropped, and so much is declared as is left. -/
theorem probe_replays_midPacket :
    (probeBody (fun _ => 511) midPacket midPacketTarget []).2.body.readAll (fun _ => 99) [] =
        (0x47 :: List.replicate 187 0 ++ [0x47], none) ∧
      (probeBody (fun _ => 511) midPacket midPacketTarget []).2.Declared := by
  have hdeclared : midPacket.Declared :=
    ⟨fun _ _ => by decide +kernel, by rintro _ ⟨⟩; rfl⟩
  have hverdict : (probeBody (fun _ => 511) midPacket midPacketTarget []).1 =
      ⟨true, false, "mpeg-ts", none⟩ := by
    decide +kernel
  obtain ⟨⟨o, ho, hread⟩, hlength⟩ :=
    (probe_replays (fun _ => 511) midPacket midPacketTarget [] hdeclared).1
      (by rw [hverdict]) (by rw [hverdict]) (by decide)
  have hleast : IsLeast {o | SyncAt (midPacket.body.contents.take catchupProbeBytes) o} 2 := by
    refine findMPEGTSSync_eq_some ?_
    decide +kernel
  rw [if_neg (by decide)] at ho
  obtain rfl := ho.unique hleast
  exact ⟨hread _, hlength⟩

end IptvProxy.Catchup
