import IptvProxy.Catchup.Direct

/-!
# What a negotiation does

`negotiation` watches the commands of `serveCatchupDirect` and says what is allowed when, whatever
the provider answers. `serveCatchupDirect_follows` is the result: one request at a time, no
candidate twice, every rejected body closed first, a decisive status passed on, success only from
an accepted response, and a format remembered only with it.
-/

namespace IptvProxy.Catchup

open Effect

/-- What has happened so far. -/
structure Phase where
  /-- the candidates that were requested -/
  requested : List Candidate
  /-- the response whose body is open, and its candidate -/
  current : Option (Candidate × Response)
  /-- what reading the prefix of its body gave -/
  read : Except Bytes Bytes
  /-- the first status that ends the negotiation -/
  decisive : Option ℕ
  /-- the status of the client's response -/
  answered : Option ℕ

/-- Nothing has happened. -/
def Phase.start : Phase := ⟨[], none, .ok [], none, none⟩

/-- The response ends the negotiation: an account or session failure, or a 416 for a range. -/
def decides (r : Request) (resp : Response) : Bool :=
  isDecisiveCatchupStatus resp.status || (resp.status = 416 && r.range ≠ [])

/-- The answer to the request of a candidate. -/
def Phase.receive (r : Request) (p : Phase) (c : Candidate) : Except Bytes Response → Phase
  | .error _ => { p with requested := p.requested ++ [c] }
  | .ok resp =>
    { p with
      requested := p.requested ++ [c]
      current := some (c, resp)
      read := .ok []
      decisive := p.decisive.or (if decides r resp then some resp.status else none) }

/-- The phase after an answer. -/
def Phase.next (r : Request) (p : Phase) : (c : Cmd) → c.Answer → Phase
  | .request c, answer => p.receive r c answer
  | .readPrefix, answer => { p with read := answer }
  | .close, _ => { p with current := none }
  | .writeHeader status _, _ => { p with answered := some status }
  | .error _ status, _ => { p with answered := some status }
  | _, _ => p

/-- The open response is that of candidate `c`, and `probeCatchupResponse` accepts it. -/
def Phase.Accepted (r : Request) (p : Phase) (c : Candidate) : Prop :=
  ∃ resp, p.current = some (c, resp) ∧ (probe resp c.url r.range p.read).accepted = true

/-- A status of success. -/
def Success (status : ℕ) : Prop := 200 ≤ status ∧ status < 300

/-- What may be done when. -/
def Allowed (h : Handler) (r : Request) (target : TargetURL) (p : Phase) : Cmd → Prop
  -- no body is open, nothing was decisive, and the candidate is a new one
  | .request c => p.current = none ∧ p.decisive = none ∧ p.answered = none ∧
      (∃ preferred candidates,
        buildCatchupCandidates target preferred = some candidates ∧ c ∈ candidates) ∧
      ∀ c' ∈ p.requested, c'.url.string ≠ c.url.string
  -- on a GET, the format of the accepted candidate
  | .set key format => r.method = .get ∧ key = catchupFormatKey h.providerID ∧
      ∃ c, p.Accepted r c ∧ format = c.format
  -- the status of the open response, success only if it is accepted
  | .writeHeader status _ => p.answered = none ∧ ∃ c resp, p.current = some (c, resp) ∧
      status = resp.status ∧ (Success status → p.Accepted r c)
  -- an error, and no decisive status was received
  | .error _ status => p.answered = none ∧ p.decisive = none ∧ ¬ Success status
  | .get key => key = catchupFormatKey h.providerID
  | .writePlaylist => p.answered ≠ none
  -- a body that is open
  | _ => p.current ≠ none

/-- In the end the client has an answer, the decisive one if there was one, and no body is open. -/
structure Phase.Finished (p : Phase) : Prop where
  /-- every body is closed -/
  closed : p.current = none
  /-- the client has an answer -/
  answered : p.answered ≠ none
  /-- a decisive status is passed on -/
  decisive : ∀ status, p.decisive = some status → p.answered = some status

/-- The watched negotiation. -/
def negotiation (h : Handler) (r : Request) (target : TargetURL) :
    Protocol Cmd Cmd.Answer Phase :=
  ⟨Allowed h r target, fun p c x => some (p.next r c x)⟩

variable {h : Handler} {r : Request} {target : TargetURL} {p : Phase} {c : Candidate}
  {resp : Response} {candidates : List Candidate} {o : Outcome}
  {replayed : Bytes} {length detectedHLS : Bool} {α : Type}

/-- One command. -/
theorem follows_command (cmd : Cmd) {Q : cmd.Answer → Phase → Prop} {R : Empty → Phase → Prop}
    (hallowed : Allowed h r target p cmd) (hQ : ∀ x, Q x (p.next r cmd x)) :
    Follows (negotiation h r target) (perform cmd) p Q R := by
  refine follows_perform.mpr ⟨hallowed, ?_⟩
  rintro x q ⟨⟩
  exact hQ x

/-- What is passed on to the client: the open response. -/
structure Passes (r : Request) (p : Phase) (c : Candidate) (resp : Response)
    (detectedHLS : Bool) : Prop where
  /-- it is open -/
  current : p.current = some (c, resp)
  /-- the client has no answer yet -/
  answered : p.answered = none
  /-- success is accepted -/
  success : Success resp.status → p.Accepted r c
  /-- no other status was decisive -/
  decisive : ∀ status, p.decisive = some status → resp.status = status
  /-- a playlist is not decisive -/
  playlist : detectedHLS = true → p.decisive = none

theorem Passes.finished (hp : Passes r p c resp detectedHLS) :
    Phase.Finished { p with answered := some resp.status, current := none } := by
  refine ⟨rfl, by simp, ?_⟩
  intro status hstatus
  exact congrArg some (hp.decisive status hstatus)

theorem follows_writeDirectResult (hp : Passes r p c resp detectedHLS) :
    Follows (negotiation h r target) (writeDirectResult r resp detectedHLS replayed length) p
      (fun _ => Phase.Finished) (fun _ _ => False) := by
  have hopen : p.current ≠ none := by
    rw [hp.current]
    simp
  have hheader : ∀ length, Allowed h r target p (.writeHeader resp.status length) :=
    fun _ => ⟨hp.answered, c, resp, hp.current, rfl, hp.success⟩
  refine follows_bind.mpr ?_
  refine follows_ite.mpr ⟨fun _ => ?_, fun _ => ?_⟩
  · -- the header of a HEAD request
    apply follows_command (.writeHeader resp.status length) (hheader length)
    intro _
    exact follows_command .close hopen fun _ => hp.finished
  · refine follows_ite.mpr ⟨fun hhls => ?_, fun _ => ?_⟩
    · -- a playlist, or what went wrong with it
      refine follows_bind.mpr ?_
      apply follows_command .playlist hopen
      intro answer
      rcases answer with text | ⟨⟩
      · apply follows_command (.error text 502)
          ⟨hp.answered, hp.playlist hhls, by rw [Success]; omega⟩
        intro _
        refine follows_command .close hopen fun _ => ?_
        refine ⟨rfl, by simp [Phase.next], ?_⟩
        intro status hstatus
        have hnone : p.decisive = some status := hstatus
        rw [hp.playlist hhls] at hnone
        cases hnone
      · refine follows_bind.mpr ?_
        apply follows_command (.writeHeader resp.status false) (hheader false)
        intro _
        apply follows_command .writePlaylist (by simp [Allowed, Phase.next])
        intro _
        exact follows_command .close hopen fun _ => hp.finished
    · refine follows_bind.mpr ?_
      apply follows_command (.writeHeader resp.status length) (hheader length)
      intro _
      refine follows_command (.relay replayed) hopen fun _ => ?_
      exact follows_command .close hopen fun _ => hp.finished

theorem follows_giveUp (hcurrent : p.current = none) (hdecisive : p.decisive = none)
    (hanswered : p.answered = none) :
    Follows (negotiation h r target) (giveUp o) p (fun _ => Phase.Finished) (fun _ _ => False) := by
  have herror : ∀ text status, ¬ Success status →
      Follows (negotiation h r target) (perform (.error text status)) p (fun _ => Phase.Finished)
        (fun _ _ => False) := by
    intro text status hstatus
    refine follows_command (.error text status) ⟨hanswered, hdecisive, hstatus⟩ fun _ => ?_
    refine ⟨hcurrent, by simp [Phase.next], ?_⟩
    intro status' hstatus'
    rw [show (Phase.next r p (.error text status) _).decisive = none from hdecisive] at hstatus'
    cases hstatus'
  have hgateway : ¬ Success 502 := by rw [Success]; omega
  refine follows_ite.mpr ⟨fun _ => herror _ _ hgateway, fun _ => ?_⟩
  refine follows_ite.mpr ⟨fun _ => herror _ _ (by rw [Success]; omega), fun _ => ?_⟩
  cases o.lastErr with
  | some text => exact herror text 502 hgateway
  | none => exact herror _ 502 hgateway

/-- A probe, and what is known after it. -/
theorem follows_probe {Q : Probe → Phase → Prop} {R : Empty → Phase → Prop}
    (hcurrent : p.current = some (c, resp)) (hread : p.read = .ok [])
    (hQ : ∀ read, Q (probe resp c.url r.range read) { p with read := read }) :
    Follows (negotiation h r target) (probeCatchupResponse resp c.url r.range) p Q R := by
  refine follows_ite.mpr ⟨fun _ => ?_, fun _ => ?_⟩
  · refine follows_bind.mpr ?_
    refine follows_command .readPrefix ?_ fun read => hQ read
    change p.current ≠ none
    rw [hcurrent]
    simp
  · have hstart := hQ p.read
    rw [hread] at hstart
    have hp : { p with read := .ok [] } = p := by rw [← hread]
    rw [hp] at hstart
    exact hstart

/-- What holds between two candidates: no body is open, nothing was decisive, and the candidates
that are left are new ones. -/
structure Between (target : TargetURL) (p : Phase) (candidates : List Candidate) : Prop where
  /-- no body is open -/
  current : p.current = none
  /-- nothing was decisive -/
  decisive : p.decisive = none
  /-- the client has no answer yet -/
  answered : p.answered = none
  /-- they are candidates of the target -/
  built : ∃ preferred all, buildCatchupCandidates target preferred = some all ∧
    ∀ c ∈ candidates, c ∈ all
  /-- no text twice, in what was requested and what is left -/
  nodup : ((p.requested ++ candidates).map fun c => c.url.string).Nodup

theorem Between.tail {p' : Phase} (hp : Between target p (c :: candidates))
    (hcurrent : p'.current = none) (hdecisive : p'.decisive = none) (hanswered : p'.answered = none)
    (hrequested : p'.requested = p.requested ++ [c]) : Between target p' candidates where
  current := hcurrent
  decisive := hdecisive
  answered := hanswered
  built := by
    obtain ⟨preferred, all, hall, hmem⟩ := hp.built
    exact ⟨preferred, all, hall, fun c hc => hmem c (List.mem_cons_of_mem _ hc)⟩
  nodup := by
    rw [hrequested, List.append_assoc]
    exact hp.nodup

theorem Between.request_allowed (hp : Between target p (c :: candidates)) :
    Allowed h r target p (.request c) := by
  obtain ⟨preferred, all, hall, hmem⟩ := hp.built
  refine ⟨hp.current, hp.decisive, hp.answered,
    ⟨preferred, all, hall, hmem c List.mem_cons_self⟩, ?_⟩
  intro c' hc' heq
  have hnodup := hp.nodup
  rw [List.map_append, List.nodup_append] at hnodup
  exact hnodup.2.2 _ (List.mem_map_of_mem hc') _ (List.mem_map_of_mem List.mem_cons_self) heq

theorem not_success_of_decisive {status : ℕ} (h : isDecisiveCatchupStatus status = true) :
    ¬ Success status := by
  simp only [isDecisiveCatchupStatus, Bool.or_eq_true, decide_eq_true_eq] at h
  rw [Success]
  omega

theorem follows_remember {Q : Unit → Phase → Prop} {R : Empty → Phase → Prop}
    (hp : r.method = .get → p.Accepted r c) (hQ : Q () p) :
    Follows (negotiation h r target)
      (if r.method = .get then rememberCatchupFormat h c.format else pure ()) p Q R := by
  refine follows_ite.mpr ⟨fun hget => ?_, fun _ => hQ⟩
  refine follows_ite.mpr ⟨fun _ => hQ, fun _ => ?_⟩
  exact follows_command (.set (catchupFormatKey h.providerID) c.format)
    ⟨hget, rfl, c, hp hget, rfl⟩ fun _ => hQ

/-- **The loop**: from between two candidates, whatever the provider answers. -/
theorem follows_negotiate (hp : Between target p candidates) :
    Follows (negotiation h r target) (negotiate h r candidates o) p (fun _ => Phase.Finished)
      (fun _ _ => False) := by
  induction candidates generalizing p o with
  | nil => exact follows_giveUp hp.current hp.decisive hp.answered
  | cons c candidates ih =>
    refine follows_bind.mpr ?_
    refine follows_command (.request c) hp.request_allowed fun answer => ?_
    rcases answer with text | resp
    · -- a transport error
      exact ih (hp.tail hp.current hp.decisive hp.answered rfl)
    · have hreceived : ∀ b : Bool, decides r resp = b → Phase.next r p (.request c) (.ok resp) =
          ⟨p.requested ++ [c], some (c, resp), .ok [], if b then some resp.status else none,
            none⟩ := by
        rintro b rfl
        change (Phase.mk _ _ _ (p.decisive.or _) p.answered) = _
        rw [hp.decisive, hp.answered]
        rfl
      -- a response that ends the negotiation is passed on
      have hpass : decides r resp = true → ¬ Success resp.status →
          Follows (negotiation h r target) (writeDirectResult r resp false [] true)
            (Phase.next r p (.request c) (.ok resp)) (fun _ => Phase.Finished)
              (fun _ _ => False) := by
        intro hdecides hsuccess
        rw [hreceived true hdecides]
        apply follows_writeDirectResult (c := c)
        exact ⟨rfl, rfl, fun h => absurd h hsuccess,
          fun status hstatus => Option.some.inj hstatus, by rintro ⟨⟩⟩
      refine follows_ite.mpr ⟨fun hdecisive => ?_, fun hdecisive => ?_⟩
      · exact hpass (by rw [decides, hdecisive]; rfl) (not_success_of_decisive hdecisive)
      · refine follows_ite.mpr ⟨fun hrange => ?_, fun hrange => ?_⟩
        · exact hpass (by simp [decides, hrange]) (by rw [Success, hrange.1]; omega)
        · have hundecided : decides r resp = false := by
            rw [decides, eq_false_of_ne_true hdecisive, Bool.false_or]
            simpa using hrange
          rw [hreceived false hundecided]
          -- the body is closed before the next candidate
          have hnext : ∀ read o', Follows (negotiation h r target)
              (do perform .close; negotiate h r candidates o')
              ⟨p.requested ++ [c], some (c, resp), read, none, none⟩ (fun _ => Phase.Finished)
                (fun _ _ => False) := by
            intro read o'
            refine follows_bind.mpr ?_
            refine follows_command .close (by simp [Allowed]) fun _ => ?_
            exact ih (hp.tail rfl rfl rfl rfl)
          refine follows_ite.mpr ⟨fun hstatus => ?_, fun _ => hnext _ _⟩
          refine follows_bind.mpr ?_
          refine follows_probe (c := c) rfl rfl fun read => ?_
          refine follows_ite.mpr ⟨fun haccepted => ?_, fun _ => hnext _ _⟩
          have hphase : Phase.Accepted r
              ⟨p.requested ++ [c], some (c, resp), read, none, none⟩ c :=
            ⟨resp, rfl, haccepted⟩
          refine follows_bind.mpr ?_
          refine follows_remember (c := c) (fun _ => hphase) ?_
          apply follows_writeDirectResult (c := c)
          exact ⟨rfl, rfl, fun _ => hphase, by rintro status ⟨⟩, fun _ => rfl⟩

theorem follows_preferred {Q : Bytes → Phase → Prop} {R : Empty → Phase → Prop}
    (hQ : ∀ preferred, Q preferred p) :
    Follows (negotiation h r target) (preferredCatchupFormat h) p Q R := by
  refine follows_ite.mpr ⟨fun _ => hQ [], fun _ => ?_⟩
  refine follows_bind.mpr ?_
  exact follows_command (.get (catchupFormatKey h.providerID)) rfl fun _ => hQ _

/-- **The negotiation**: whatever the provider answers, every command of `serveCatchupDirect` is
allowed when it is issued, and in the end the client has its answer. -/
theorem serveCatchupDirect_follows (h : Handler) (r : Request) (target : TargetURL) :
    Follows (negotiation h r target) (serveCatchupDirect h r target) .start
      (fun _ => Phase.Finished) (fun _ _ => False) := by
  refine follows_bind.mpr (follows_preferred fun preferred => ?_)
  have hinvalid : Follows (negotiation h r target)
      (perform (.error (ascii "invalid catch-up request") 400)) .start (fun _ => Phase.Finished)
        (fun _ _ => False) := by
    refine follows_command (.error _ 400) ⟨rfl, rfl, by rw [Success]; omega⟩ fun _ => ?_
    exact ⟨rfl, by simp [Phase.next], by rintro status ⟨⟩⟩
  rcases hcandidates : buildCatchupCandidates target preferred with _ | _ | ⟨c, candidates⟩
  · exact hinvalid
  · exact hinvalid
  · apply follows_negotiate
    exact ⟨rfl, rfl, rfl, ⟨preferred, _, hcandidates, fun _ hc => hc⟩,
      nodup_candidates hcandidates⟩

end IptvProxy.Catchup
