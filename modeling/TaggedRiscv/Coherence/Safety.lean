import Mathlib
import TaggedRiscv.Coherence.Protocol

/-!
# Single writer and directory soundness

The invariant is local: for each client it relates that client's record to the manager's state, so
that a client step concerns one record only. Its core says that a client with a copy is in the
sharer set, and that a client that may write is the whole sharer set.
-/

namespace TaggedRiscv.Mesi

open ReleaseType BuiltInAcquire ClientState Sys Manager Finset

variable {n beats : ℕ}

/-! ## The policy functions on permissions -/

namespace ClientState

@[simp] theorem hasWritePermission_invalid : clientInvalid.hasWritePermission = false := rfl

@[simp] theorem hasWritePermission_shared : clientShared.hasWritePermission = false := rfl

variable {s : ClientState}

@[simp] theorem isValid_eq_false : s.isValid = false ↔ s = clientInvalid := by
  simp [isValid]

theorem isValid_of_hasWritePermission (h : s.hasWritePermission) : s.isValid := by
  cases s <;> simp_all [hasWritePermission, isValid]

theorem hasWritePermission_of_hasDirtyData (h : s.hasDirtyData) : s.hasWritePermission := by
  cases s <;> simp_all [hasWritePermission, hasDirtyData]

theorem isHit_invalid (cmd : MemCmd) : clientInvalid.isHit cmd = false := by
  cases h : cmd.isWriteIntent <;> simp [isHit, h, hasReadPermission]

/-- A client that lacks a permission it needs cannot write. -/
theorem hasWritePermission_of_not_isHit {cmd : MemCmd}
    (h : s.isHit cmd = false) : s.hasWritePermission = false := by
  cases hw : cmd.isWriteIntent <;> simp_all [isHit, hasReadPermission]

/-- A hit gives no client a permission it did not have. -/
theorem hasWritePermission_of_onHit {cmd : MemCmd} (h : s.isHit cmd)
    (hw : (s.onHit cmd).hasWritePermission) : s.hasWritePermission := by
  cases hc : cmd.isWrite with
  | true => simpa [isHit, MemCmd.isWriteIntent_of_isWrite hc] using h
  | false => simpa [onHit, hc] using hw

end ClientState

/-- The releases on which the manager drops the sender from the directory. -/
def ReleaseType.invalidates : ReleaseType → Bool
  | releaseInvalidateData | releaseInvalidateAck => true
  | _ => false

theorem onRelease_of_invalidates {r : ReleaseType} (h : r.invalidates) (c : Fin n)
    (sharers : Sharers n) : onRelease r c sharers = sharers.erase c := by
  cases r <;> simp_all [onRelease, ReleaseType.invalidates]

theorem onRelease_of_not_invalidates {r : ReleaseType} (h : r.invalidates = false) (c : Fin n)
    (sharers : Sharers n) : onRelease r c sharers = sharers := by
  cases r <;> simp_all [onRelease, ReleaseType.invalidates]

/-- A release that gives the copy up answers a probe that invalidates. -/
theorem invalidates_getProbeReleaseType (p : ProbeType) (s : ClientState) :
    (getProbeReleaseType p s).invalidates ↔ p = probeInvalidate := by
  cases p <;> cases hs : s.hasDirtyData <;>
    simp [getProbeReleaseType, getReleaseType, hs, ReleaseType.invalidates]

/-- A shared acquire is granted exclusively only when nobody shares the block. -/
theorem getGrantType_shared {sharers : Sharers n}
    (h : getGrantType acquireShared sharers ≠ grantShared) : sharers = ∅ := by
  by_contra hne
  exact h (by simp [getGrantType, hne])

/-! ## The invariant -/

/-- What holds of a client whatever the manager does, given the sharer set. -/
structure ClientOk (sharers : Sharers n) (d : Fin n) (c : Client) : Prop where
  mem_sharers : c.coh.isValid → d ∈ sharers
  writer : c.coh.hasWritePermission → sharers = {d}
  acquiring : c.mshr ≠ none → c.coh.hasWritePermission = false
  acquire : c.acquire ≠ none → c.mshr ≠ none
  wbPending : c.wbPending → c.coh = clientInvalid ∧ c.mshr = none
  volRelease : c.volRelease ≠ none → c.wbPending ∧ c.volAck = false
  volAck : c.volAck → c.wbPending

/-- No probe, answer, grant or finish of the client is in flight. -/
structure Quiet (c : Client) : Prop where
  probe : c.probe = none
  release : c.release = none
  grant : c.grant = []
  refillCnt : c.refillCnt = 0
  finish : c.finish = false

/-- The client the transaction is for waits for its grant. -/
def Asking (x : Acquire n) (d : Fin n) (c : Client) : Prop :=
  x.client? = some d → c.mshr ≠ none ∧ c.acquire = none

/-- A client while the tracker probes. Until a sharer that must give up its copy
has done so, its probe is pending, in flight or answered; until a writer that
must be downgraded has been, its probe is pending or in flight. -/
structure Probing (x : Acquire n) (iprbs sharers : Sharers n) (d : Fin n) (c : Client) :
    Prop where
  grant : c.grant = []
  refillCnt : c.refillCnt = 0
  finish : c.finish = false
  asking : Asking x d c
  probe : ∀ p, c.probe = some p → p = getProbeType x ∧ c.release = none
  pending : d ∈ iprbs → c.probe = none ∧ c.release = none
  release : ∀ r, c.release = some r → r.invalidates → c.coh = clientInvalid
  invalidated : getProbeType x = probeInvalidate → d ∈ sharers →
    x.client? = some d ∨ d ∈ iprbs ∨ c.probe ≠ none ∨
      ∃ r, c.release = some r ∧ r.invalidates
  downgraded : getProbeType x = probeDowngrade → c.coh.hasWritePermission →
    x.client? = some d ∨ d ∈ iprbs ∨ c.probe ≠ none

/-- The client the transaction is for has not received its last grant beat. If
that beat is in flight, it promises no more than the directory allows. -/
structure GrantOpen (beats igntSent : ℕ) (ifinDone : Bool) (sharers : Sharers n) (d : Fin n)
    (c : Client) : Prop where
  mshr : c.mshr ≠ none
  acquire : c.acquire = none
  finish : c.finish = false
  ifinDone : ifinDone = false
  sent : c.refillCnt + c.grant.length = igntSent
  last : igntSent = beats → 0 < igntSent → ∃ g, c.grant.getLast? = some g ∧ d ∈ sharers ∧
    (g ≠ grantShared → sharers = {d})

/-- The client the transaction is for has its whole grant. -/
structure GrantClosed (beats igntSent : ℕ) (ifinDone : Bool) (c : Client) : Prop where
  grant : c.grant = []
  refillCnt : c.refillCnt = 0
  sent : igntSent = beats
  finish : ifinDone → c.finish = false

/-- A client while the tracker grants. -/
structure Granting (beats : ℕ) (x : Acquire n) (ogntLeft igntSent : ℕ) (ifinDone : Bool)
    (dir : Option (Sharers n)) (sharers : Sharers n) (d : Fin n) (c : Client) : Prop where
  probe : c.probe = none
  release : c.release = none
  other : x.client? ≠ some d → c.grant = [] ∧ c.refillCnt = 0 ∧ c.finish = false
  asker : x.client? = some d →
    GrantOpen beats igntSent ifinDone sharers d c ∨ GrantClosed beats igntSent ifinDone c
  miss : 0 < ogntLeft → c.coh = clientInvalid
  reader : ∀ e, x.client? = some e → igntSent < beats → d ≠ e →
    c.coh.hasWritePermission = false
  absent : dir = none → x.client? = none → c.coh = clientInvalid

/-- What holds of a client in each state of the tracker. -/
def ClientPhaseOk (beats : ℕ) (dir : Option (Sharers n)) (sharers : Sharers n) (d : Fin n)
    (c : Client) : Phase n → Prop
  | .idle => Quiet c
  | .metaResp x => Quiet c ∧ Asking x d c
  | .innerProbe x iprbs _ => Probing x iprbs sharers d c
  | .outerAcquire x => Quiet c ∧ Asking x d c
  | .busy x ogntLeft igntSent ifinDone =>
    Granting beats x ogntLeft igntSent ifinDone dir sharers d c
  | .metaWrite x => Quiet c ∧ (dir = none → x.client? = none → c.coh = clientInvalid)
  | .relMetaResp e _ | .relBusy e _ _ =>
    Quiet c ∧ (d = e → c.coh = clientInvalid ∧ c.wbPending = true ∧ c.volRelease = none ∧
      c.volAck = false)
  | .relMetaWrite e _ _ => Quiet c ∧ (d = e → c.coh = clientInvalid)

/-- What holds of the manager alone. -/
def ManagerOk (beats : ℕ) (m : Manager n) : Prop :=
  match m.phase with
  | .innerProbe _ _ _ => m.dir ≠ none ∧ (m.pendingMetaWrite = false → m.dir = some m.pendingCoh)
  | .outerAcquire _ => m.pendingCoh = ∅ ∧ m.pendingMetaWrite = true
  | .busy x ogntLeft igntSent _ =>
    (m.pendingMetaWrite = false → m.dir = some m.pendingCoh) ∧
      ∀ c t, x = .custom c t → igntSent + ogntLeft ≤ beats ∧
        (t = acquireExclusive → igntSent < beats → m.pendingCoh ⊆ {c})
  | .metaWrite _ => m.pendingMetaWrite = false → m.dir = some m.pendingCoh
  | .relBusy _ _ old | .relMetaWrite _ _ old => old = m.dir.getD ∅
  | _ => True

/-- The clients with a probe or the answer to one in flight. -/
def outstanding (client : Fin n → Client) : Finset (Fin n) :=
  Finset.univ.filter fun d => (client d).probe ≠ none ∨ (client d).release ≠ none

@[simp] theorem mem_outstanding {client : Fin n → Client} {d : Fin n} :
    d ∈ outstanding client ↔ (client d).probe ≠ none ∨ (client d).release ≠ none := by
  rw [outstanding, mem_filter]
  exact and_iff_right (mem_univ d)

/-- The tracker's count of answers it waits for. -/
def CountOk (client : Fin n → Client) : Phase n → Prop
  | .innerProbe _ _ irels => irels = (outstanding client).card
  | _ => True

/-- The invariant of the protocol. -/
structure Inv (beats : ℕ) (s : Sys n) : Prop where
  client : ∀ d, ClientOk s.mgr.sharers d (s.client d)
  phase : ∀ d, ClientPhaseOk beats s.mgr.dir s.mgr.sharers d (s.client d) s.mgr.phase
  mgr : ManagerOk beats s.mgr
  count : CountOk s.client s.mgr.phase

theorem Inv.init : Inv beats (Sys.init n) where
  client _ := by constructor <;> simp [Sys.init, isValid]
  phase _ := by constructor <;> rfl
  mgr := trivial
  count := trivial

section

variable {s : Sys n} (h : Inv beats s)

include h

/-- What the invariant says in a state of the tracker. -/
theorem Inv.at_phase {ph : Phase n} (hph : s.mgr.phase = ph) :
    (∀ d, ClientOk ({ s.mgr with phase := ph } : Manager n).sharers d (s.client d)) ∧
      (∀ d, ClientPhaseOk beats s.mgr.dir ({ s.mgr with phase := ph } : Manager n).sharers d
        (s.client d) ph) ∧
      ManagerOk beats { s.mgr with phase := ph } ∧ CountOk s.client ph := by
  subst hph
  exact ⟨h.client, h.phase, h.mgr, h.count⟩

theorem Inv.at_innerProbe {x : Acquire n} {iprbs : Finset (Fin n)} {irels : ℕ}
    (hph : s.mgr.phase = .innerProbe x iprbs irels) :
    (∀ d, ClientOk s.mgr.pendingCoh d (s.client d)) ∧
      (∀ d, Probing x iprbs s.mgr.pendingCoh d (s.client d)) ∧
      (s.mgr.dir ≠ none ∧ (s.mgr.pendingMetaWrite = false → s.mgr.dir = some s.mgr.pendingCoh)) ∧
      irels = (outstanding s.client).card :=
  h.at_phase hph

theorem Inv.at_busy {x : Acquire n} {ogntLeft igntSent : ℕ} {ifinDone : Bool}
    (hph : s.mgr.phase = .busy x ogntLeft igntSent ifinDone) :
    (∀ d, ClientOk s.mgr.pendingCoh d (s.client d)) ∧
      (∀ d, Granting beats x ogntLeft igntSent ifinDone s.mgr.dir s.mgr.pendingCoh d (s.client d)) ∧
      (s.mgr.pendingMetaWrite = false → s.mgr.dir = some s.mgr.pendingCoh) ∧
      ∀ c t, x = .custom c t → igntSent + ogntLeft ≤ beats ∧
        (t = acquireExclusive → igntSent < beats → s.mgr.pendingCoh ⊆ {c}) := by
  obtain ⟨hcl, hp, hm, -⟩ := h.at_phase hph
  exact ⟨hcl, hp, hm⟩

end

/-! ## Steps of a client

A client step leaves the manager alone, so only the record that changed has to be
looked at. -/

section Client

variable {s : Sys n} {dir : Option (Sharers n)} {sharers : Sharers n} {d : Fin n} {c : Client}
  {ph : Phase n} {coh : ClientState}

/-- A step that changes the record of client `c` to `cl`. -/
theorem Inv.setClient (h : Inv beats s) (c : Fin n) {cl : Client} (hc : ClientOk s.mgr.sharers c cl)
    (hp : ClientPhaseOk beats s.mgr.dir s.mgr.sharers c cl s.mgr.phase)
    (ho : (cl.probe ≠ none ∨ cl.release ≠ none) ↔
      ((s.client c).probe ≠ none ∨ (s.client c).release ≠ none)) :
    Inv beats (s.setClient c cl) where
  client d := by
    by_cases hd : d = c
    · subst hd
      simpa using hc
    · simpa [hd] using h.client d
  phase d := by
    by_cases hd : d = c
    · subst hd
      simpa using hp
    · simpa [hd] using h.phase d
  mgr := h.mgr
  count := by
    have hout : outstanding (s.setClient c cl).client = outstanding s.client := by
      ext d
      by_cases hd : d = c
      · subst hd
        simpa using ho
      · simp [hd]
    have hcount := h.count
    cases hph : s.mgr.phase <;> simp_all [CountOk]

/-- Giving up permissions keeps what holds of a client. -/
theorem ClientOk.mono (h : ClientOk sharers d c) (hv : c.coh = clientInvalid → coh = clientInvalid)
    (hw : coh.hasWritePermission → c.coh.hasWritePermission) :
    ClientOk sharers d { c with coh := coh } where
  mem_sharers hcoh := h.mem_sharers (by
    by_contra hinv
    simp only [Bool.not_eq_true, isValid_eq_false] at hinv
    simp [hv hinv, isValid] at hcoh)
  writer hcoh := h.writer (hw hcoh)
  acquiring hm := by
    by_contra hcoh
    exact absurd (hw (by simpa using hcoh)) (by simp [h.acquiring hm])
  acquire := h.acquire
  wbPending hwb := ⟨hv (h.wbPending hwb).1, (h.wbPending hwb).2⟩
  volRelease := h.volRelease
  volAck := h.volAck

section

variable (h : ClientPhaseOk beats dir sharers d c ph)

include h

/-- A new record of a client keeps what holds in the state of the tracker, if it keeps what the
states ask for. -/
theorem ClientPhaseOk.imp {c' : Client}
    (hquiet : Quiet c → Quiet c') (hask : ∀ {x}, Asking x d c → Asking x d c')
    (hprobing : ∀ {x iprbs}, Probing x iprbs sharers d c → Probing x iprbs sharers d c')
    (hgranting : ∀ {x ogntLeft igntSent ifinDone},
      Granting beats x ogntLeft igntSent ifinDone dir sharers d c →
        Granting beats x ogntLeft igntSent ifinDone dir sharers d c')
    (hinv : c.coh = clientInvalid → c'.coh = clientInvalid)
    (hwb : c.coh = clientInvalid → c.wbPending ∧ c.volRelease = none ∧ c.volAck = false →
      c'.wbPending ∧ c'.volRelease = none ∧ c'.volAck = false) :
    ClientPhaseOk beats dir sharers d c' ph := by
  cases ph with
  | idle => exact hquiet h
  | metaResp x => exact ⟨hquiet h.1, hask h.2⟩
  | innerProbe x iprbs irels => exact hprobing h
  | outerAcquire x => exact ⟨hquiet h.1, hask h.2⟩
  | busy x ogntLeft igntSent ifinDone => exact hgranting h
  | metaWrite x => exact ⟨hquiet h.1, fun hdir hx => hinv (h.2 hdir hx)⟩
  | relMetaResp e r => exact ⟨hquiet h.1, fun hd => ⟨hinv (h.2 hd).1, hwb (h.2 hd).1 (h.2 hd).2⟩⟩
  | relBusy e r old => exact ⟨hquiet h.1, fun hd => ⟨hinv (h.2 hd).1, hwb (h.2 hd).1 (h.2 hd).2⟩⟩
  | relMetaWrite e r old => exact ⟨hquiet h.1, fun hd => hinv (h.2 hd)⟩

theorem ClientPhaseOk.mono (hv : c.coh = clientInvalid → coh = clientInvalid)
    (hw : coh.hasWritePermission → c.coh.hasWritePermission) :
    ClientPhaseOk beats dir sharers d { c with coh := coh } ph := by
  have hro : c.coh.hasWritePermission = false → coh.hasWritePermission = false := by
    intro hc
    by_contra hcoh
    exact absurd (hw (by simpa using hcoh)) (by simp [hc])
  refine h.imp (fun q => { q with }) id (fun h => ?_) (fun h => ?_) hv fun _ => id
  · exact
      { grant := h.grant, refillCnt := h.refillCnt, finish := h.finish, asking := h.asking
        probe := h.probe, pending := h.pending
        release := fun r hr hi => hv (h.release r hr hi)
        invalidated := h.invalidated
        downgraded := fun hx hcoh => h.downgraded hx (hw hcoh) }
  · exact
      { probe := h.probe, release := h.release, other := h.other
        asker := fun hx => (h.asker hx).imp (fun o => { o with }) (fun o => { o with })
        miss := fun hl => hv (h.miss hl)
        reader := fun e hx hs hd => hro (h.reader e hx hs hd)
        absent := fun hdir hx => hv (h.absent hdir hx) }

/-- A client that has no acquire outstanding is not the one waited for, unless its
grant is complete; sending one changes nothing the tracker relies on. -/
theorem ClientPhaseOk.sendAcquire (cmd : MemCmd)
    (hm : c.mshr = none) : ClientPhaseOk beats dir sharers d (c.sendAcquire cmd) ph := by
  have hask : ∀ {x}, Asking x d c → Asking x d (c.sendAcquire cmd) := fun ha hx =>
    absurd hm (ha hx).1
  refine h.imp (fun q => { q with refillCnt := rfl }) hask
    (fun h => { h with refillCnt := rfl, asking := hask h.asking }) (fun h => ?_) id fun _ => id
  exact
    { h with
      other := fun hx => ⟨(h.other hx).1, rfl, (h.other hx).2.2⟩
      asker := fun hx => by
        rcases h.asker hx with o | o
        · exact absurd hm o.mshr
        · exact .inr { o with refillCnt := rfl } }

/-- Answering a probe is possible only while the tracker probes. Afterwards the
answer is in flight; if it gives the copy up, the copy is gone, and if the client
had to be downgraded, it has been. -/
theorem ClientPhaseOk.recvProbe (hp : c.probe ≠ none) :
    ClientPhaseOk beats dir sharers d c.recvProbe ph := by
  obtain ⟨p, hp⟩ := Option.ne_none_iff_exists'.1 hp
  have hnot : ¬ Quiet c := fun q => by simp [q.probe] at hp
  cases ph with
  | innerProbe x iprbs irels =>
    obtain ⟨hpx, -⟩ := h.probe p hp
    have hcoh : p = probeInvalidate →
        (if c.coh.isValid then c.coh.onProbe p else c.coh) = clientInvalid := by
      rintro rfl
      split
      · rfl
      · simpa using ‹¬c.coh.isValid = true›
    simp only [Client.recvProbe, hp]
    exact
      { grant := h.grant, refillCnt := h.refillCnt, finish := h.finish, asking := h.asking
        probe := by simp
        pending := fun hd => by simp [(h.pending hd).1] at hp
        release := by
          rintro r ⟨rfl⟩ hr
          exact hcoh ((invalidates_getProbeReleaseType p c.coh).1 hr)
        invalidated := fun hx _ =>
          .inr (.inr (.inr ⟨_, rfl, (invalidates_getProbeReleaseType p c.coh).2 (hpx.trans hx)⟩))
        downgraded := fun hx hw => by
          obtain rfl : p = probeDowngrade := hpx.trans hx
          cases hv : c.coh.isValid
          · rw [isValid_eq_false] at hv
            simp [hv, isValid] at hw
          · simp [hv, onProbe] at hw }
  | busy x ogntLeft igntSent ifinDone => exact absurd h.probe (by simp [hp])
  | idle => exact absurd h hnot
  | _ => exact absurd h.1 hnot

end

theorem ClientOk.recvProbe (h : ClientOk sharers d c) : ClientOk sharers d c.recvProbe := by
  cases hp : c.probe with
  | none => simpa [Client.recvProbe, hp] using h
  | some p =>
    have hm : ClientOk sharers d
        { c with coh := if c.coh.isValid then c.coh.onProbe p else c.coh } := by
      refine h.mono (fun hv => by simp [hv, isValid]) fun hw => ?_
      cases hv : c.coh.isValid with
      | false => simpa [hv] using hw
      | true => cases p <;> simp_all [onProbe]
    simp only [Client.recvProbe, hp]
    exact { hm with }

/-- A grant beat arrives only while the tracker grants, at the client it grants to. -/
theorem ClientPhaseOk.granting_of_grant (h : ClientPhaseOk beats dir sharers d c ph)
    (hg : c.grant ≠ []) :
    ∃ x ogntLeft igntSent ifinDone, ph = .busy x ogntLeft igntSent ifinDone ∧
      x.client? = some d ∧ GrantOpen beats igntSent ifinDone sharers d c := by
  have hnot : ¬ Quiet c := fun q => hg q.grant
  cases ph with
  | innerProbe x iprbs irels => exact absurd h.grant hg
  | busy x ogntLeft igntSent ifinDone =>
    have hx : x.client? = some d := by
      by_contra hx
      exact hg (h.other hx).1
    rcases h.asker hx with o | o
    · exact ⟨x, ogntLeft, igntSent, ifinDone, rfl, hx, o⟩
    · exact absurd o.grant hg
  | idle => exact absurd h hnot
  | _ => exact absurd h.1 hnot

/-- The last beat of a grant keeps its promise: the client ends in the sharer set,
and alone in it if it may write. -/
theorem Inv.recvGrant (h : Inv beats s) (c : Fin n) (hg : (s.client c).grant ≠ []) :
    Inv beats (s.setClient c ((s.client c).recvGrant beats)) := by
  obtain ⟨x, ogntLeft, igntSent, ifinDone, hph, hx, o⟩ := (h.phase c).granting_of_grant hg
  obtain ⟨g, rest, hg⟩ := List.exists_cons_of_ne_nil hg
  obtain ⟨cmd, hcmd⟩ := Option.ne_none_iff_exists'.1 o.mshr
  have hc := h.client c
  have hp := h.phase c
  rw [hph] at hp
  have hlen : (s.client c).refillCnt + (rest.length + 1) = igntSent := by simpa [hg] using o.sent
  have hle : igntSent + ogntLeft ≤ beats := by
    have hm := h.mgr
    simp only [ManagerOk, hph] at hm
    cases x with
    | custom e t => exact (hm.2 e t rfl).1
    | builtIn a => simp [Acquire.client?] at hx
  by_cases hlast : (s.client c).refillCnt + 1 = beats
  · have hrest : rest = [] := List.eq_nil_of_length_eq_zero (by omega)
    have hsent : igntSent = beats := by omega
    obtain ⟨g', hg', hmem, hsingle⟩ := o.last hsent (by omega)
    obtain rfl : g = g' := by simpa [hg, hrest] using hg'
    have heq : (s.client c).recvGrant beats =
        { s.client c with
          grant := [], coh := ClientState.onGrant g cmd, mshr := none, refillCnt := 0
          finish := true } := by
      simp [Client.recvGrant, hg, hcmd, hlast, hrest]
    rw [heq]
    refine h.setClient c ?_ ?_ Iff.rfl
    · exact
        { mem_sharers := fun _ => hmem
          writer := fun hw => hsingle (by rintro rfl; simp [ClientState.onGrant] at hw)
          acquiring := by simp
          acquire := fun ha => absurd o.acquire ha
          wbPending := fun hwb => by simp [(hc.wbPending hwb).2] at hcmd
          volRelease := hc.volRelease
          volAck := hc.volAck }
    · rw [hph]
      exact
        { probe := hp.probe, release := hp.release
          other := fun hne => absurd hx hne
          asker := fun _ => .inr
            { grant := rfl, refillCnt := rfl, sent := hsent
              finish := fun hf => by simp [o.ifinDone] at hf }
          miss := fun hl => by omega
          reader := fun _ _ hs => by omega
          absent := fun _ hn => by simp [hn] at hx }
  · have heq : (s.client c).recvGrant beats =
        { s.client c with grant := rest, refillCnt := (s.client c).refillCnt + 1 } := by
      simp [Client.recvGrant, hg, hcmd, hlast]
    rw [heq]
    refine h.setClient c { hc with } ?_ Iff.rfl
    rw [hph]
    exact
      { hp with
        other := fun hne => absurd hx hne
        asker := fun _ => .inl
          { o with
            sent := by
              show (s.client c).refillCnt + 1 + rest.length = igntSent
              omega
            last := fun hs hpos => by
              obtain ⟨g', hg', hrest⟩ := o.last hs hpos
              have hne : rest ≠ [] := by rintro rfl; simp at hlen; omega
              obtain ⟨g'', rest', rfl⟩ := List.exists_cons_of_ne_nil hne
              exact ⟨g', by simpa [hg] using hg', hrest⟩ } }

/-- The record of a write-back matters only to the release tracker that handles it. -/
theorem ClientPhaseOk.setWb (h : ClientPhaseOk beats dir sharers d c ph) {vr : Option ReleaseType}
    {wb va : Bool} (hrel : c.coh = clientInvalid → c.volAck = false → wb ∧ vr = none ∧ va = false) :
    ClientPhaseOk beats dir sharers d
      { c with volRelease := vr, wbPending := wb, volAck := va } ph := by
  refine h.imp (fun q => { q with }) id (fun h => { h with }) (fun h => ?_) id
    fun hinv hwb => hrel hinv hwb.2.2
  exact { h with asker := fun hx => (h.asker hx).imp (fun o => { o with }) fun o => { o with } }

/-- A write-back gives the copy up when the release is sent. -/
theorem Inv.writeback (h : Inv beats s) (c : Fin n) (hd : (s.client c).coh.hasDirtyData) :
    Inv beats (s.setClient c (s.client c).writeback) := by
  have hw := hasWritePermission_of_hasDirtyData hd
  have hne : (s.client c).coh ≠ clientInvalid := fun hinv => by simp [hinv] at hw
  have hm : (s.client c).mshr = none := by
    by_contra hm
    simp [(h.client c).acquiring hm] at hw
  have hack : (s.client c).volAck = false := by
    rw [Bool.eq_false_iff]
    exact fun ha => hne ((h.client c).wbPending ((h.client c).volAck ha)).1
  have hok : ClientOk s.mgr.sharers c { s.client c with coh := clientInvalid } :=
    (h.client c).mono (fun _ => rfl) (by simp)
  refine h.setClient c ?_ ?_ Iff.rfl
  · exact
      { hok with
        wbPending := fun _ => ⟨rfl, hm⟩
        volRelease := fun _ => ⟨rfl, hack⟩
        volAck := fun _ => rfl }
  · -- the release tracker is not at work for a client that has a copy
    have hph : ClientPhaseOk beats s.mgr.dir s.mgr.sharers c
        { s.client c with
          volRelease := some (getReleaseType .FLUSH (s.client c).coh), wbPending := true }
        s.mgr.phase := (h.phase c).setWb fun hinv => absurd hinv hne
    exact hph.mono (fun _ => rfl) (by simp [onCacheControl])

theorem Inv.recvVolAck (h : Inv beats s) (c : Fin n) (ha : (s.client c).volAck) :
    Inv beats (s.setClient c { s.client c with volAck := false, wbPending := false }) := by
  have hok := h.client c
  have hrel : (s.client c).volRelease = none := by
    by_contra hr
    simp [(hok.volRelease hr).2] at ha
  refine h.setClient c ?_ ((h.phase c).setWb fun _ hf => by simp [ha] at hf) Iff.rfl
  exact
    { hok with
      wbPending := by simp
      volRelease := fun hr => absurd hrel hr
      volAck := by simp }

end Client

/-! ## Steps of the manager -/

section Manager

variable {s : Sys n} (h : Inv beats s) {x : Acquire n} {sharers iprbs old : Sharers n}
  {c d : Fin n} {r : ReleaseType} {t : AcquireType} {irels ogntLeft igntSent : ℕ}
  {ifinDone ognt : Bool}

/-- A step of the manager that changes the record of client `c` to `cl`. -/
theorem Inv.setBoth {cl : Client} {m : Manager n}
    (hself : ClientOk m.sharers c cl ∧ ClientPhaseOk beats m.dir m.sharers c cl m.phase)
    (hother : ∀ d ≠ c, ClientOk m.sharers d (s.client d) ∧
      ClientPhaseOk beats m.dir m.sharers d (s.client d) m.phase)
    (hm : ManagerOk beats m) (hcount : CountOk (s.setClient c cl).client m.phase) :
    Inv beats ((s.setClient c cl).setMgr m) where
  client d := by
    by_cases hd : d = c
    · subst hd
      simpa using hself.1
    · simpa [hd] using (hother d hd).1
  phase d := by
    by_cases hd : d = c
    · subst hd
      simpa using hself.2
    · simpa [hd] using (hother d hd).2
  mgr := hm
  count := hcount

/-- A client without a copy fits every sharer set. -/
theorem ClientOk.of_invalid {sharers sharers' : Sharers n} {c : Client} (h : ClientOk sharers d c)
    (hc : c.coh = clientInvalid) : ClientOk sharers' d c :=
  { h with
    mem_sharers := fun hv => by simp [hc, isValid] at hv
    writer := fun hw => by simp [hc] at hw }

theorem ClientOk.invalid_of_empty {c : Client} (h : ClientOk ∅ d c) : c.coh = clientInvalid := by
  rw [← isValid_eq_false, Bool.eq_false_iff]
  exact fun hv => notMem_empty d (h.mem_sharers hv)

/-- Dropping a client that has given up its copy. -/
theorem ClientOk.onRelease {d e : Fin n} {c : Client} (h : ClientOk sharers d c)
    (hinv : d = e → r.invalidates → c.coh = clientInvalid) :
    ClientOk (onRelease r e sharers) d c := by
  cases hr : r.invalidates with
  | false => rwa [onRelease_of_not_invalidates hr]
  | true =>
    rw [onRelease_of_invalidates hr]
    by_cases hd : d = e
    · exact h.of_invalid (hinv hd hr)
    · exact
        { h with
          mem_sharers := fun hv => mem_erase.2 ⟨hd, h.mem_sharers hv⟩
          writer := fun hw => by
            rw [h.writer hw, erase_eq_of_notMem (by simpa using Ne.symm hd)] }

/-- A directory that was not marked for writing is the one in the array. -/
theorem Manager.dir_eq_of_updatePendingCoh {m : Manager n} {coh : Sharers n} {ph : Phase n}
    (h : m.pendingMetaWrite = false → m.dir = some m.pendingCoh)
    (hf : (m.updatePendingCoh coh ph).pendingMetaWrite = false) : m.dir = some coh := by
  simp only [updatePendingCoh, Bool.or_eq_false_iff, decide_eq_false_iff_not, not_not] at hf
  rw [h hf.1, hf.2]

theorem Quiet.outstanding_eq {client : Fin n → Client} (h : ∀ d, Quiet (client d)) :
    outstanding client = ∅ := by
  ext d
  simp [(h d).probe, (h d).release]

theorem mem_probeMask : d ∈ probeMask x sharers ↔ d ∈ sharers ∧ x.client? ≠ some d := by
  cases x with
  | custom c t => simp [probeMask, Acquire.client?, and_comm, eq_comm]
  | builtIn a => simp [probeMask, Acquire.client?]

/-- Where no probe is needed, nobody may write. -/
theorem card_ne_one_of_not_requiresProbes (h : requiresProbes x sharers = false) :
    sharers.card ≠ 1 := by
  intro hc
  have hne : sharers ≠ ∅ := by rintro rfl; simp at hc
  simp [requiresProbes, hne, hc] at h

theorem eq_empty_of_not_requiresProbes
    (h : requiresProbes (.custom c acquireExclusive) sharers = false) : sharers = ∅ := by
  by_contra hne
  by_cases hc : sharers.card = 1 <;> simp [requiresProbes, hne, hc] at h

/-- A waiting client at the start of the grant. -/
theorem GrantOpen.start {c : Client} (q : Quiet c) (ha : Asking x d c) (hx : x.client? = some d) :
    GrantOpen beats 0 false sharers d c where
  mshr := (ha hx).1
  acquire := (ha hx).2
  finish := q.finish
  ifinDone := rfl
  sent := by simp [q.grant, q.refillCnt]
  last _ hpos := absurd hpos (lt_irrefl 0)

/-- The start of the grants, with nothing to be refilled from outside. -/
theorem Granting.start {dir : Option (Sharers n)} {c : Client} (q : Quiet c) (ha : Asking x d c)
    {ogntLeft : ℕ} (hmiss : 0 < ogntLeft → c.coh = clientInvalid)
    (hreader : ∀ e, x.client? = some e → d ≠ e → c.coh.hasWritePermission = false)
    (habsent : dir = none → x.client? = none → c.coh = clientInvalid) :
    Granting beats x ogntLeft 0 false dir sharers d c where
  probe := q.probe
  release := q.release
  other _ := ⟨q.grant, q.refillCnt, q.finish⟩
  asker hx := .inl (.start q ha hx)
  miss := hmiss
  reader e hx _ hd := hreader e hx hd
  absent := habsent

include h

theorem Inv.acceptAcquire (hph : s.mgr.phase = .idle) (ha : (s.client c).acquire = some t) :
    Inv beats ((s.setClient c { s.client c with acquire := none }).setMgr
      { s.mgr with phase := .metaResp (.custom c t) }) := by
  obtain ⟨hcl, hq, -⟩ := h.at_phase hph
  have hm : (s.client c).mshr ≠ none := (hcl c).acquire (by simp [ha])
  refine Inv.setBoth ⟨?_, ?_, ?_⟩ (fun d hd => ⟨hcl d, hq d, ?_⟩) trivial trivial
  · exact { hcl c with acquire := by simp }
  · exact { hq c with }
  · exact fun _ => ⟨hm, rfl⟩
  · intro hx
    exact absurd (Option.some.inj hx).symm hd

theorem Inv.acceptBuiltIn (a : BuiltInAcquire) (hph : s.mgr.phase = .idle) :
    Inv beats (s.setMgr { s.mgr with phase := .metaResp (.builtIn a) }) := by
  obtain ⟨hcl, hq, -⟩ := h.at_phase hph
  exact
    { client := hcl
      phase := fun d => ⟨hq d, fun hx => by simp [Acquire.client?] at hx⟩
      mgr := trivial
      count := trivial }

/-! ### Reading the metadata -/

theorem Inv.metaResp (victim : Sharers n) (hph : s.mgr.phase = .metaResp x) :
    Inv beats (s.setMgr (s.mgr.metaResp x victim)) := by
  obtain ⟨hcl, hq, -⟩ := h.at_phase hph
  cases hdir : s.mgr.dir with
  | some sharers =>
    simp only [Manager.sharers, hdir, Option.getD_some] at hcl
    cases hrp : requiresProbes x sharers with
    | true =>
      simp only [Manager.metaResp, hdir, hrp, if_true]
      refine ⟨hcl, fun d => ?_, ⟨by simp, fun _ => rfl⟩, ?_⟩
      · obtain ⟨q, ha⟩ := hq d
        have hmask : d ∈ sharers → x.client? = some d ∨ d ∈ probeMask x sharers := fun hd => by
          by_cases hx : x.client? = some d
          · exact .inl hx
          · exact .inr (mem_probeMask.2 ⟨hd, hx⟩)
        exact
          { grant := q.grant, refillCnt := q.refillCnt, finish := q.finish, asking := ha
            probe := fun p hp => by simp [q.probe] at hp
            pending := fun _ => ⟨q.probe, q.release⟩
            release := fun r hr => by simp [q.release] at hr
            invalidated := fun _ hd => (hmask hd).imp_right .inl
            downgraded := fun _ hw => (hmask ((hcl d).mem_sharers
              (isValid_of_hasWritePermission hw))).imp_right .inl }
      · show 0 = (outstanding s.client).card
        rw [Quiet.outstanding_eq fun d => (hq d).1, card_empty]
    | false =>
      simp only [Manager.metaResp, hdir, hrp, Bool.false_eq_true, if_false]
      refine ⟨hcl, fun d => ?_, ⟨fun _ => rfl, ?_⟩, trivial⟩
      · obtain ⟨q, ha⟩ := hq d
        refine Granting.start q ha (by simp) (fun e _ _ => ?_) (by simp)
        rw [Bool.eq_false_iff]
        intro hw
        exact card_ne_one_of_not_requiresProbes hrp (by simp [(hcl d).writer hw])
      · rintro c t rfl
        refine ⟨Nat.zero_le _, ?_⟩
        rintro rfl -
        simp [eq_empty_of_not_requiresProbes hrp]
  | none =>
    -- nobody has a copy of a block that is not in the cache
    simp only [Manager.sharers, hdir, Option.getD_none] at hcl
    have hinv : ∀ d, (s.client d).coh = clientInvalid := fun d => (hcl d).invalid_of_empty
    by_cases hx : x = .builtIn putBlockType
    · simp only [Manager.metaResp, hdir, hx, if_true]
      refine ⟨fun d => (hcl d).of_invalid (hinv d), fun d => ?_, ⟨by simp, by simp⟩, trivial⟩
      obtain ⟨q, -⟩ := hq d
      exact Granting.start q (fun hx => by simp [Acquire.client?] at hx) (by simp)
        (by simp [Acquire.client?]) (fun _ _ => hinv d)
    · simp only [Manager.metaResp, hdir, hx, if_false]
      exact ⟨hcl, fun d => hq d, ⟨rfl, rfl⟩, trivial⟩

/-! ### Probing -/

theorem Inv.sendProbe (hph : s.mgr.phase = .innerProbe x iprbs irels) (hc : c ∈ iprbs) :
    Inv beats ((s.setClient c { s.client c with probe := some (getProbeType x) }).setMgr
      { s.mgr with phase := .innerProbe x (iprbs.erase c) (irels + 1) }) := by
  obtain ⟨hcl, hp, hm, hcount⟩ := h.at_innerProbe hph
  obtain ⟨hprobe, hrelease⟩ := (hp c).pending hc
  refine Inv.setBoth ⟨{ hcl c with }, ?_⟩ (fun d hd => ⟨hcl d, ?_⟩) hm ?_
  · have hpc := hp c
    exact
      { hpc with
        probe := fun p hp => ⟨(Option.some.inj hp).symm, hrelease⟩
        pending := by simp
        invalidated := fun _ _ => .inr (.inr (.inl (by simp)))
        downgraded := fun _ _ => .inr (.inr (by simp)) }
  · have hpd := hp d
    have hmem : d ∈ iprbs → d ∈ iprbs.erase c := fun hd' => mem_erase.2 ⟨hd, hd'⟩
    exact
      { hpd with
        pending := fun hd' => hpd.pending (mem_of_mem_erase hd')
        invalidated := fun hx hs => (hpd.invalidated hx hs).imp_right (Or.imp_left hmem)
        downgraded := fun hx hw => (hpd.downgraded hx hw).imp_right (Or.imp_left hmem) }
  · have hout : outstanding (s.setClient c
        { s.client c with probe := some (getProbeType x) }).client =
        insert c (outstanding s.client) := by
      ext d
      by_cases hd : d = c
      · subst hd
        simp
      · simp [hd]
    show irels + 1 = _
    rw [hout, card_insert_of_notMem (by simp [hprobe, hrelease]), hcount]

theorem Inv.recvRelease (hph : s.mgr.phase = .innerProbe x iprbs irels)
    (hr : (s.client c).release = some r) :
    Inv beats ((s.setClient c { s.client c with release := none }).setMgr
      (s.mgr.updatePendingCoh (Mesi.onRelease r c s.mgr.pendingCoh)
        (.innerProbe x iprbs (irels - 1)))) := by
  obtain ⟨hcl, hp, hm, hcount⟩ := h.at_innerProbe hph
  have hprobe : (s.client c).probe = none := by
    by_contra hne
    obtain ⟨p, hpr⟩ := Option.ne_none_iff_exists'.1 hne
    simp [((hp c).probe p hpr).2] at hr
  have hsub : Mesi.onRelease r c s.mgr.pendingCoh ⊆ s.mgr.pendingCoh := by
    cases r <;> simp [Mesi.onRelease, erase_subset]
  refine Inv.setBoth ⟨?_, ?_⟩ (fun d hd => ⟨?_, ?_⟩)
    ⟨hm.1, dir_eq_of_updatePendingCoh hm.2⟩ ?_
  · have hok := (hcl c).onRelease (e := c) (r := r) fun _ hi => (hp c).release r hr hi
    exact { hok with }
  · have hpc := hp c
    exact
      { hpc with
        probe := fun p hpr => by simp [hprobe] at hpr
        pending := fun hd => ⟨hprobe, rfl⟩
        release := by simp
        invalidated := fun hx hs => by
          rcases hpc.invalidated hx (hsub hs) with ha | hd | hpr | ⟨r', hr', hi⟩
          · exact .inl ha
          · exact .inr (.inl hd)
          · exact absurd hprobe hpr
          · obtain rfl : r = r' := by simpa [hr] using hr'
            have hs' : c ∈ Mesi.onRelease r c s.mgr.pendingCoh := hs
            simp [onRelease_of_invalidates hi] at hs' }
  · exact (hcl d).onRelease fun hdc => absurd hdc hd
  · have hpd := hp d
    exact { hpd with invalidated := fun hx hs => hpd.invalidated hx (hsub hs) }
  · have hout : outstanding (s.setClient c { s.client c with release := none }).client =
        (outstanding s.client).erase c := by
      ext d
      by_cases hd : d = c
      · subst hd
        simp [hprobe]
      · simp [hd]
    show irels - 1 = _
    rw [hout, card_erase_of_mem (by simp [hr]), hcount]

theorem Inv.probesDone (hph : s.mgr.phase = .innerProbe x ∅ 0) :
    Inv beats (s.setMgr { s.mgr with phase := .busy x 0 0 false }) := by
  obtain ⟨hcl, hp, hm, hcount⟩ := h.at_innerProbe hph
  have hnone : ∀ d, (s.client d).probe = none ∧ (s.client d).release = none := by
    intro d
    have hd : d ∉ outstanding s.client := by
      rw [card_eq_zero.1 hcount.symm]
      exact notMem_empty d
    simpa using hd
  -- a probe that invalidates has left at most the client that asked
  have honly : getProbeType x = probeInvalidate → ∀ d ∈ s.mgr.pendingCoh, x.client? = some d := by
    intro hx d hd
    simpa [hnone d] using (hp d).invalidated hx hd
  refine ⟨hcl, fun d => ?_, ⟨hm.2, ?_⟩, trivial⟩
  · have q : Quiet (s.client d) :=
      ⟨(hnone d).1, (hnone d).2, (hp d).grant, (hp d).refillCnt, (hp d).finish⟩
    refine Granting.start q (hp d).asking (by simp) (fun e hx hd => ?_) fun hdir => absurd hdir hm.1
    rw [Bool.eq_false_iff]
    intro hw
    have hask : x.client? = some d := by
      cases x with
      | builtIn a => simp [Acquire.client?] at hx
      | custom c t =>
        cases t with
        | acquireShared => simpa [hnone d] using (hp d).downgraded rfl hw
        | acquireExclusive =>
          exact honly rfl d ((hcl d).mem_sharers (isValid_of_hasWritePermission hw))
    exact hd (Option.some.inj (hask.symm.trans hx))
  · rintro c t rfl
    refine ⟨Nat.zero_le _, ?_⟩
    rintro rfl - d hd
    have hask := honly rfl d hd
    simpa [Acquire.client?, eq_comm] using hask

/-! ### Granting -/

theorem Inv.outerAcquire (hph : s.mgr.phase = .outerAcquire x) :
    Inv beats (s.setMgr { s.mgr with phase := .busy x beats 0 false }) := by
  obtain ⟨hcl, hq, hm, -⟩ := h.at_phase hph
  have hcoh : s.mgr.pendingCoh = ∅ := hm.1
  have hinv : ∀ d, (s.client d).coh = clientInvalid := fun d =>
    ClientOk.invalid_of_empty (by simpa [Manager.sharers, hcoh] using hcl d)
  refine ⟨hcl, fun d => ?_, ⟨fun hf => absurd (hm.2.symm.trans hf) (by simp), ?_⟩, trivial⟩
  · obtain ⟨q, ha⟩ := hq d
    exact Granting.start q ha (fun _ => hinv d) (fun _ _ _ => by simp [hinv d]) fun _ _ => hinv d
  · rintro c t -
    exact ⟨by simp, fun _ _ => by simp [hcoh]⟩

/-- A cycle without an inner grant beat. When the last outer beat arrives, nobody
has a copy yet, so the directory may be reset. -/
theorem Inv.busy_ognt (hph : s.mgr.phase = .busy x ogntLeft igntSent ifinDone) :
    Inv beats (s.setMgr (s.mgr.busyCycle x ogntLeft igntSent ifinDone false ognt)) := by
  obtain ⟨hcl, hp, hm⟩ := h.at_busy hph
  by_cases hlast : ognt ∧ ogntLeft = 1
  · obtain ⟨rfl, rfl⟩ := hlast
    simp only [busyCycle, and_self, if_true]
    have hinv : ∀ d, (s.client d).coh = clientInvalid := fun d => (hp d).miss Nat.one_pos
    refine ⟨fun d => (hcl d).of_invalid (hinv d), fun d => ?_,
      ⟨dir_eq_of_updatePendingCoh hm.1, ?_⟩, trivial⟩
    · have hpd := hp d
      exact
        { hpd with
          asker := fun hx => by
            rcases hpd.asker hx with o | o
            · refine .inl { o with last := fun hs _ => ?_ }
              -- the last inner beat cannot have been sent before the last outer one came
              cases x with
              | builtIn a => simp [Acquire.client?] at hx
              | custom e t =>
                have hle := (hm.2 e t rfl).1
                rw [Bool.toNat_false] at hs
                omega
            · exact .inr o
          miss := fun hl => by simp at hl }
    · rintro c t rfl
      have := (hm.2 c t rfl).1
      exact ⟨by simp; omega, fun _ _ => by simp [updatePendingCoh]⟩
  · have heq : s.mgr.busyCycle x ogntLeft igntSent ifinDone false ognt =
        { s.mgr with phase := .busy x (ogntLeft - ognt.toNat) igntSent ifinDone } := by
      simp [busyCycle, hlast, updatePendingCoh]
    rw [heq]
    refine ⟨hcl, fun d => ?_, ⟨hm.1, ?_⟩, trivial⟩
    · have hpd := hp d
      exact { hpd with miss := fun hl => hpd.miss (by omega) }
    · intro c t hx
      have := hm.2 c t hx
      exact ⟨by omega, this.2⟩

/-- A beat of a custom grant leaves. The client is in the sharer set from now on;
the last beat is exclusive only if the client is alone there. -/
theorem Inv.busy_ignt (hph : s.mgr.phase = .busy (.custom c t) ogntLeft igntSent ifinDone)
    (hready : igntSent < beats - ogntLeft) :
    Inv beats ((s.setMgr
      (s.mgr.busyCycle (.custom c t) ogntLeft igntSent ifinDone true ognt)).setClient c
        { s.client c with
          grant := (s.client c).grant ++ [getGrantType t s.mgr.pendingCoh] }) := by
  obtain ⟨hcl, hp, hm⟩ := h.at_busy hph
  obtain ⟨hflag, hm⟩ := hm
  obtain ⟨hle, hexcl⟩ := hm c t rfl
  have hlt : igntSent < beats := by omega
  have hopen : GrantOpen beats igntSent ifinDone s.mgr.pendingCoh c (s.client c) := by
    rcases (hp c).asker rfl with o | o
    · exact o
    · exact absurd o.sent hlt.ne
  have halone : getGrantType t s.mgr.pendingCoh ≠ grantShared →
      insert c s.mgr.pendingCoh = {c} := by
    intro hg
    cases t with
    | acquireShared => simp [getGrantType_shared hg]
    | acquireExclusive =>
      exact Finset.Subset.antisymm
        (insert_subset (mem_singleton_self c) (hexcl rfl hlt)) (by simp)
  have hleft : 0 < ogntLeft - ognt.toNat → 0 < ogntLeft := by omega
  refine Inv.setBoth (s := s) ⟨?_, ?_⟩ (fun d hd => ⟨?_, ?_⟩)
    ⟨dir_eq_of_updatePendingCoh hflag, ?_⟩ trivial
  · have hok := hcl c
    exact
      { hok with
        mem_sharers := fun _ => mem_insert_self c _
        writer := fun hw => by simp [hok.acquiring hopen.mshr] at hw }
  · have hpc := hp c
    exact
      { hpc with
        other := fun hne => absurd rfl hne
        asker := fun _ => .inl
          { hopen with
            sent := by simpa [← hopen.sent] using (Nat.add_assoc _ _ _).symm
            last := fun _ _ => ⟨_, by simp, mem_insert_self c _, halone⟩ }
        miss := fun hl => hpc.miss (hleft hl)
        reader := fun e hx hs hd => hpc.reader e hx hlt hd }
  · have hok := hcl d
    have hro := (hp d).reader c rfl hlt hd
    exact
      { hok with
        mem_sharers := fun hv => mem_insert_of_mem (hok.mem_sharers hv)
        writer := fun hw => by simp [hro] at hw }
  · have hpd := hp d
    exact
      { hpd with
        asker := fun hx => absurd (Option.some.inj hx).symm hd
        miss := fun hl => hpd.miss (hleft hl)
        reader := fun e hx _ hne => hpd.reader e hx hlt hne }
  · rintro e t' ⟨rfl, rfl⟩
    refine ⟨by simp; omega, fun ht _ => ?_⟩
    exact insert_subset (mem_singleton_self c) (hexcl ht hlt)

/-- A beat of a built-in grant leaves; it goes to a client that does not cache. -/
theorem Inv.busy_builtIn {a : BuiltInAcquire}
    (hph : s.mgr.phase = .busy (.builtIn a) ogntLeft igntSent ifinDone) :
    Inv beats (s.setMgr
      (s.mgr.busyCycle (.builtIn a) ogntLeft igntSent ifinDone true ognt)) := by
  obtain ⟨hcl, hp, hm⟩ := h.at_busy hph
  refine ⟨hcl, fun d => ?_, ⟨dir_eq_of_updatePendingCoh hm.1, by simp⟩, trivial⟩
  have hpd := hp d
  exact
    { hpd with
      asker := fun hx => by simp [Acquire.client?] at hx
      miss := fun hl => hpd.miss (by omega)
      reader := fun e hx => by simp [Acquire.client?] at hx }

theorem Inv.recvFinish (hph : s.mgr.phase = .busy (.custom c t) ogntLeft igntSent ifinDone)
    (hf : (s.client c).finish) :
    Inv beats ((s.setClient c { s.client c with finish := false }).setMgr
      { s.mgr with phase := .busy (.custom c t) ogntLeft igntSent true }) := by
  obtain ⟨hcl, hp, hm⟩ := h.at_busy hph
  refine Inv.setBoth ⟨{ hcl c with }, ?_⟩ (fun d hd => ⟨hcl d, ?_⟩) hm trivial
  · have hpc := hp c
    exact
      { hpc with
        other := fun hne => absurd rfl hne
        asker := fun hx => by
          rcases hpc.asker hx with o | o
          · exact absurd o.finish (by simp [hf])
          · exact .inr { o with finish := fun _ => rfl } }
  · have hpd := hp d
    exact { hpd with asker := fun hx => absurd (Option.some.inj hx).symm hd }

theorem Inv.xactDone {igntSent : ℕ} (hph : s.mgr.phase = .busy x 0 igntSent ifinDone)
    (hfin : x.client? ≠ none → ifinDone) :
    Inv beats (s.setMgr { s.mgr with phase := .metaWrite x }) := by
  obtain ⟨hcl, hp, hm⟩ := h.at_busy hph
  refine ⟨hcl, fun d => ⟨?_, (hp d).absent⟩, hm.1, trivial⟩
  by_cases hx : x.client? = some d
  · have hdone := hfin (by simp [hx])
    rcases (hp d).asker hx with o | o
    · exact absurd o.ifinDone (by simp [hdone])
    · exact ⟨(hp d).probe, (hp d).release, o.grant, o.refillCnt, o.finish hdone⟩
  · obtain ⟨hg, hr, hf⟩ := (hp d).other hx
    exact ⟨(hp d).probe, (hp d).release, hg, hr, hf⟩

theorem Inv.metaWrite {outerValid : Bool} (hph : s.mgr.phase = .metaWrite x)
    (hov : outerValid ∨ (x.client? = none ∧ s.mgr.dir = none)) :
    Inv beats (s.next beats (.metaWrite outerValid)) := by
  obtain ⟨hcl, hq, hm, -⟩ := h.at_phase hph
  simp only [Manager.sharers] at hcl
  refine ⟨fun d => ?_, fun d => (hq d).1, trivial, trivial⟩
  show ClientOk ((if s.mgr.pendingMetaWrite then
    (if outerValid then some s.mgr.pendingCoh else none) else s.mgr.dir).getD ∅) d (s.client d)
  cases hw : s.mgr.pendingMetaWrite with
  | false => simpa [show s.mgr.dir = _ from hm hw] using hcl d
  | true =>
    rcases hov with rfl | ⟨hx, hdir⟩
    · simpa using hcl d
    · exact (hcl d).of_invalid ((hq d).2 hdir hx)

/-! ### Voluntary releases -/

theorem Inv.acceptRelease (hph : s.mgr.phase = .idle) (hr : (s.client c).volRelease = some r) :
    Inv beats ((s.setClient c { s.client c with volRelease := none }).setMgr
      { s.mgr with phase := .relMetaResp c r }) := by
  obtain ⟨hcl, hq, -⟩ := h.at_phase hph
  obtain ⟨hwb, hack⟩ := (hcl c).volRelease (by simp [hr])
  refine Inv.setBoth ⟨?_, { hq c with }, fun _ => ?_⟩
    (fun d hd => ⟨hcl d, hq d, fun he => absurd he hd⟩) trivial trivial
  · exact { hcl c with volRelease := by simp }
  · exact ⟨((hcl c).wbPending hwb).1, hwb, rfl, hack⟩

theorem Inv.relMetaResp (hph : s.mgr.phase = .relMetaResp c r) :
    Inv beats (s.setMgr { s.mgr with phase := .relBusy c r (s.mgr.dir.getD ∅) }) := by
  obtain ⟨hcl, hq, -⟩ := h.at_phase hph
  exact ⟨hcl, hq, rfl, trivial⟩

theorem Inv.relGrant (hph : s.mgr.phase = .relBusy c r old) :
    Inv beats ((s.setClient c { s.client c with volAck := true }).setMgr
      { s.mgr with phase := .relMetaWrite c r old }) := by
  obtain ⟨hcl, hq, hm, -⟩ := h.at_phase hph
  obtain ⟨q, hc⟩ := hq c
  obtain ⟨hinv, hwb, hrel, -⟩ := hc rfl
  refine Inv.setBoth ⟨?_, { q with }, fun _ => hinv⟩
    (fun d hd => ⟨hcl d, (hq d).1, fun he => absurd he hd⟩) hm trivial
  have hok := hcl c
  exact
    { hok with
      volRelease := fun hv => absurd hrel hv
      volAck := fun _ => hwb }

theorem Inv.relMetaWrite (hph : s.mgr.phase = .relMetaWrite c r old) :
    Inv beats (s.setMgr
      { s.mgr with dir := some (Mesi.onRelease r c old), phase := .idle }) := by
  obtain ⟨hcl, hq, hm, -⟩ := h.at_phase hph
  obtain rfl : old = s.mgr.dir.getD ∅ := hm
  exact ⟨fun d => (hcl d).onRelease fun hd _ => (hq d).2 hd, fun d => (hq d).1, trivial, trivial⟩

end Manager

/-! ## Every run -/

theorem Inv.step {s : Sys n} (h : Inv beats s) {a : Act n} (hok : s.ok beats a) :
    Inv beats (s.next beats a) := by
  cases a with
  | acquire c cmd =>
    simp only [ok, Bool.and_eq_true, Bool.not_eq_true', Option.isNone_iff_eq_none] at hok
    obtain ⟨⟨hmiss, hmshr⟩, hwb⟩ := hok
    have hc := h.client c
    refine h.setClient c ?_ ((h.phase c).sendAcquire cmd hmshr) Iff.rfl
    exact
      { hc with
        acquiring := fun _ => hasWritePermission_of_not_isHit hmiss
        acquire := fun _ => by simp [Client.sendAcquire]
        wbPending := fun hwb' => by simp [Client.sendAcquire, hwb] at hwb' }
  | hit c cmd =>
    have hv : (s.client c).coh = clientInvalid →
        (s.client c).coh.onHit cmd = clientInvalid := fun hinv => by
      simp [ok, hinv, isHit_invalid] at hok
    have hw := hasWritePermission_of_onHit hok
    exact h.setClient c ((h.client c).mono hv hw) ((h.phase c).mono hv hw) Iff.rfl
  | evict c =>
    exact h.setClient c ((h.client c).mono (fun _ => rfl) (by simp [onCacheControl]))
      ((h.phase c).mono (fun _ => rfl) (by simp [onCacheControl])) Iff.rfl
  | writeback c => exact h.writeback c hok
  | recvProbe c =>
    obtain ⟨p, hp⟩ := Option.isSome_iff_exists.1 hok
    refine h.setClient c (h.client c).recvProbe ((h.phase c).recvProbe (by simp [hp])) ?_
    simp [Client.recvProbe, hp]
  | recvGrant c => exact h.recvGrant c (by simpa [ok] using hok)
  | recvVolAck c => exact h.recvVolAck c hok
  | acceptAcquire c =>
    cases hph : s.mgr.phase <;> simp only [ok, hph, Bool.false_and, Bool.false_eq_true] at hok
    obtain ⟨t, ha⟩ := Option.isSome_iff_exists.1 hok
    simpa only [next, ha] using h.acceptAcquire hph ha
  | acceptBuiltIn a =>
    cases hph : s.mgr.phase <;> simp only [ok, hph, Bool.false_eq_true] at hok
    exact h.acceptBuiltIn a hph
  | metaResp victim =>
    cases hph : s.mgr.phase <;> simp only [ok, hph, Bool.false_eq_true] at hok
    simpa only [next, hph] using h.metaResp victim hph
  | sendProbe c =>
    cases hph : s.mgr.phase <;>
      simp only [ok, hph, decide_eq_true_eq, Bool.false_eq_true] at hok
    simpa only [next, hph] using h.sendProbe hph hok.1
  | recvRelease c =>
    cases hph : s.mgr.phase <;> simp only [ok, hph, Bool.false_and, Bool.false_eq_true] at hok
    obtain ⟨r, hr⟩ := Option.isSome_iff_exists.1 hok
    simpa only [next, hph, hr] using h.recvRelease hph hr
  | probesDone =>
    cases hph : s.mgr.phase <;>
      simp only [ok, hph, decide_eq_true_eq, Bool.false_eq_true] at hok
    obtain ⟨rfl, rfl⟩ := hok
    simpa only [next, hph] using h.probesDone hph
  | outerAcquire =>
    cases hph : s.mgr.phase <;> simp only [ok, hph, Bool.false_eq_true] at hok
    simpa only [next, hph] using h.outerAcquire hph
  | busy ignt ognt =>
    cases hph : s.mgr.phase <;> simp only [ok, hph, Bool.false_eq_true] at hok
    rename_i x ogntLeft igntSent ifinDone
    cases ignt with
    | false => simpa only [next, hph] using h.busy_ognt hph
    | true =>
      cases x with
      | custom c t =>
        have hready : igntSent < beats - ogntLeft := by
          simp only [Bool.and_eq_true, Bool.or_eq_true, Bool.not_true, Bool.false_eq_true,
            false_or, decide_eq_true_eq] at hok
          exact hok.2.2
        simpa only [next, hph] using h.busy_ignt hph hready
      | builtIn a => simpa only [next, hph] using h.busy_builtIn hph
  | recvFinish c =>
    cases hph : s.mgr.phase <;> simp only [ok, hph, Bool.false_eq_true] at hok
    rename_i x ogntLeft igntSent ifinDone
    cases x <;> simp only [Bool.and_eq_true, decide_eq_true_eq, Bool.false_eq_true] at hok
    obtain ⟨rfl, hf⟩ := hok
    simpa only [next, hph] using h.recvFinish hph hf
  | xactDone =>
    cases hph : s.mgr.phase <;>
      simp only [ok, hph, Bool.and_eq_true, decide_eq_true_eq, Bool.false_eq_true] at hok
    obtain ⟨⟨rfl, -⟩, hfin⟩ := hok
    have hdone := h.xactDone hph fun hx => by
      simpa [Option.isNone_eq_false_iff.2 (Option.isSome_iff_ne_none.2 hx)] using hfin
    simpa only [next, hph] using hdone
  | metaWrite outerValid =>
    cases hph : s.mgr.phase <;>
      simp only [ok, hph, Bool.or_eq_true, Bool.and_eq_true, Option.isNone_iff_eq_none,
        Bool.false_eq_true] at hok
    exact h.metaWrite hph hok
  | acceptRelease c =>
    cases hph : s.mgr.phase <;> simp only [ok, hph, Bool.false_and, Bool.false_eq_true] at hok
    obtain ⟨r, hr⟩ := Option.isSome_iff_exists.1 hok
    simpa only [next, hr] using h.acceptRelease hph hr
  | relMetaResp =>
    cases hph : s.mgr.phase <;> simp only [ok, hph, Bool.false_eq_true] at hok
    simpa only [next, hph] using h.relMetaResp hph
  | relGrant =>
    cases hph : s.mgr.phase <;> simp only [ok, hph, Bool.false_eq_true] at hok
    simpa only [next, hph] using h.relGrant hph
  | relMetaWrite =>
    cases hph : s.mgr.phase <;> simp only [ok, hph, Bool.false_eq_true] at hok
    simpa only [next, hph] using h.relMetaWrite hph

/-- In every run from reset, a client that may write is the only client with a
copy, and every client with a copy is in the sharer set of the manager. -/
theorem single_writer_directory_sound (n beats : ℕ) (as : List (Act n))
    (hl : (machine n beats).Legal (Sys.init n) as) :
    (∀ c d, c ≠ d →
      (((machine n beats).run (Sys.init n) as).client c).coh.hasWritePermission = true →
      (((machine n beats).run (Sys.init n) as).client d).coh.isValid = false) ∧
    ∀ c, (((machine n beats).run (Sys.init n) as).client c).coh.isValid = true →
      c ∈ ((machine n beats).run (Sys.init n) as).mgr.sharers := by
  have h : Inv beats ((machine n beats).run (Sys.init n) as) :=
    Sync.Machine.invariant_run (P := Inv beats) (fun _ _ hs hok => Inv.step hs hok) Inv.init hl
  refine ⟨fun c d hcd hw => ?_, fun c hv => (h.client c).mem_sharers hv⟩
  by_contra hv
  have hd := (h.client d).mem_sharers (by simpa only [Bool.not_eq_false] using hv)
  rw [(h.client c).writer hw, mem_singleton] at hd
  exact hcd hd.symm

local instance neZeroClients : NeZero 2 := ⟨by decide⟩

/-- Client 0 takes the block for writing from outside, then client 1 takes a
shared copy, for which client 0 is downgraded. -/
def handover : List (Act 2) :=
  [.acquire 0 .XWR, .acceptAcquire 0, .metaResp ∅, .outerAcquire, .busy false true,
    .busy true false, .recvGrant 0, .recvFinish 0, .xactDone, .metaWrite true,
    .acquire 1 .XRD, .acceptAcquire 1, .metaResp ∅, .sendProbe 0, .recvProbe 0, .recvRelease 0,
    .probesDone, .busy true false, .recvGrant 1]

instance : ∀ s a, Decidable ((machine n beats).ok s a) := fun s a =>
  inferInstanceAs (Decidable (s.ok beats a = true))

/-- The theorem at that run; after its first seven steps client 0 may write. -/
theorem single_writer_directory_sound_handover :
    (((machine 2 1).run (Sys.init 2) (handover.take 7)).client 0).coh =
        clientExclusiveDirty ∧
      (∀ c d, c ≠ d →
        (((machine 2 1).run (Sys.init 2) handover).client c).coh.hasWritePermission = true →
        (((machine 2 1).run (Sys.init 2) handover).client d).coh.isValid = false) ∧
      ∀ c, (((machine 2 1).run (Sys.init 2) handover).client c).coh.isValid = true →
        c ∈ ((machine 2 1).run (Sys.init 2) handover).mgr.sharers :=
  ⟨by decide, single_writer_directory_sound 2 1 handover (by decide)⟩

end TaggedRiscv.Mesi
