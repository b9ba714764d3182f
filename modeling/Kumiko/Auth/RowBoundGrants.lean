import Kumiko.Auth.SignedTokens
import Kumiko.Library.Run
import Kumiko.Pipeline.IdentitySwitch
import Mathlib.Data.List.Count

/-!
# Row-bound grants

`shared/row-bound-grant.ts`: a signed token whose purpose has the current anchor of a row mixed in. A redemption
reads the anchor, verifies, and spends it with a conditional update. Where no row is given an anchor twice, no
token is redeemed twice (`redemptions_of_run`).
-/

namespace Kumiko

open Transition

/-! ## Signing -/

/-- What is thrown. -/
inductive GrantError where
  | error (message : String)
  | rangeError

/-- Reference: `anchoredPurpose`. -/
def anchoredPurpose (purpose anchor : String) : String := purpose ++ ":" ++ anchor

/-- Reference: `hasDelimiter`. -/
def hasDelimiter (value : String) : Bool := value.toList.contains ':'

/-- Reference: `isUnambiguousPart`. -/
def isUnambiguousPart (value : String) : Bool := value ≠ "" && !hasDelimiter value

/-- The arguments of `signRowBoundGrant`. -/
structure SignGrantArgs where
  subject : String
  purpose : String
  anchor : String
  ttlMinutes : ℤ
  secret : String
  now : ℤ

def SignGrantArgs.tokenArgs (args : SignGrantArgs) : SignTokenArgs :=
  ⟨args.subject, anchoredPurpose args.purpose args.anchor, args.ttlMinutes, args.secret, args.now⟩

/-- Reference: `TokenPurpose`. -/
inductive TokenPurpose where
  | passwordReset
  | emailVerification
  | accountUnlock

def TokenPurpose.text : TokenPurpose → String
  | passwordReset => "reset"
  | emailVerification => "verify"
  | accountUnlock => "unlock"

/-- Whether the anchor is spent by `commitAnchor`, or declared not to be. Reference: `AnchorCommit`. -/
inductive AnchorCommit where
  | commitAnchor
  | unsafeSkip (reason : String)

/-- The arguments of `redeemRowBoundGrant`, less the callbacks. -/
structure RedeemArgs where
  token : String
  purpose : String
  secret : Option String
  commitAnchor : AnchorCommit
  now : Option ℤ

section Hmac

variable (hmac : String → String → String)

/-- Reference: `signRowBoundGrant`. -/
def signRowBoundGrant (args : SignGrantArgs) : Except GrantError (String × ℤ) :=
  if hasDelimiter args.anchor || hasDelimiter args.subject then
    .error (.error "row-bound grant: subject and anchor must not contain ':'")
  else
    match signToken hmac args.tokenArgs with
    | none => .error .rangeError
    | some signed => .ok signed

/-! ## Redeeming -/

/-- Up to `loadAnchor`: the secret and the subject, or `none` where the result is `FAILED`. Reference:
`redeemRowBoundGrant`. -/
def redeemSubject (args : RedeemArgs) : Except GrantError (Option (String × String)) :=
  if match args.commitAnchor with
      | .unsafeSkip reason => reason.toList.all isTrimmedByJs
      | .commitAnchor => false then
    .error (.error "row-bound grant: unsafeSkip needs a non-empty reason")
  else
    .ok <| do
      let secret ← args.secret.filter (· ≠ "")
      let subject ← (peekTokenSubject args.token).filter isUnambiguousPart
      pure (secret, subject)

/-- After `loadAnchor`: the anchor and the expiry, or `none` where the result is `FAILED`. Reference:
`redeemRowBoundGrant`. -/
def redeemLoaded (args : RedeemArgs) (secret : String) (loaded : Option String) (now : ℤ) :
    Except GrantError (Option (String × ℚ)) :=
  match loaded.filter isUnambiguousPart with
  | none => .ok none
  | some anchor =>
    match verifyToken hmac args.token (anchoredPurpose args.purpose anchor) secret now with
    | none => .error .rangeError
    | some (.ok _ expiresAtMs) => .ok (some (anchor, expiresAtMs))
    | some _ => .ok none

end Hmac

/-- A grant that was minted. -/
structure Granted where
  args : SignGrantArgs
  token : String
  expiresAt : ℤ

/-- A redemption whose result was `ok`: the anchor is the one of the row when the call read or spent it. -/
structure Redemption where
  token : String
  purpose : String
  subject : String
  expiresAtMs : ℚ
  anchor : Option String
  verifiedAt : ℤ
  spent : Bool

/-- Before which statement a redemption is. -/
inductive RedeemPhase where
  | loadAnchor (args : RedeemArgs) (secret subject : String)
  | commitAnchor (args : RedeemArgs) (subject anchor : String) (expiresAtMs : ℚ) (verifiedAt : ℤ)

/-- The clock, the anchors of the rows, the redemptions under way, the tokens that were signed, the anchors that rows
were given, and the redemptions that succeeded. -/
structure GrantWorld where
  now : ℤ
  anchors : String → Option String
  phases : ℕ → Option RedeemPhase
  granted : List Granted
  signed : List (SignTokenArgs × ℤ)
  given : List (String × String)
  redeemed : List Redemption

inductive GrantAct where
  | setClock (now : ℤ)
  /-- A write that gives the row an anchor or takes it. -/
  | writeRow (subject : String) (anchor : Option String)
  | sign (args : SignGrantArgs)
  /-- `signToken` for a user, whose id is a UUID. -/
  | signToken (userId : String) (purpose : TokenPurpose) (ttlMinutes : ℤ) (secret : String) (now : ℤ)
  | redeem (k : ℕ) (args : RedeemArgs)
  | loadAnchor (k : ℕ)
  /-- The conditional update of `commitAnchor`, and the anchor that it moves the row on to. -/
  | commitAnchor (k : ℕ) (next : Option String)
  /-- `loadAnchor` or `commitAnchor` throws. -/
  | fail (k : ℕ)

namespace GrantWorld

variable (s : GrantWorld)

def initial (now : ℤ) : GrantWorld := ⟨now, fun _ => none, fun _ => none, [], [], [], []⟩

def setPhase (k : ℕ) (phase : Option RedeemPhase) : GrantWorld :=
  { s with phases := Function.update s.phases k phase }

/-- The row carries this anchor from now on. -/
def moveRow (subject : String) (anchor : Option String) : GrantWorld :=
  { s with
    anchors := Function.update s.anchors subject anchor
    given := anchor.toList.map (subject, ·) ++ s.given }

def redeemOk (r : Redemption) : GrantWorld := { s with redeemed := r :: s.redeemed }

variable (hmac : String → String → String)

def step (s : GrantWorld) : GrantAct → Option GrantWorld
  | .setClock now => some { s with now }
  | .writeRow subject anchor => some (if s.anchors subject = anchor then s else s.moveRow subject anchor)
  | .sign args =>
    match signRowBoundGrant hmac args with
    | .error _ => some s
    | .ok (token, expiresAt) => some { s with granted := ⟨args, token, expiresAt⟩ :: s.granted }
  | .signToken userId purpose ttlMinutes secret now =>
    let args : SignTokenArgs := ⟨userId, purpose.text, ttlMinutes, secret, now⟩
    if hasDelimiter userId then none
    else
      match Kumiko.signToken hmac args with
      | none => some s
      | some (_, expiresAt) => some { s with signed := (args, expiresAt) :: s.signed }
  | .redeem k args =>
    match redeemSubject args with
    | .error _ | .ok none => some (s.setPhase k none)
    | .ok (some (secret, subject)) => some (s.setPhase k (some (.loadAnchor args secret subject)))
  | .loadAnchor k =>
    match s.phases k with
    | some (.loadAnchor args secret subject) =>
      let now := args.now.getD s.now
      match redeemLoaded hmac args secret (s.anchors subject) now with
      | .error _ | .ok none => some (s.setPhase k none)
      | .ok (some (anchor, expiresAtMs)) =>
        match args.commitAnchor with
        | .commitAnchor => some (s.setPhase k (some (.commitAnchor args subject anchor expiresAtMs now)))
        | .unsafeSkip _ =>
          some ((s.setPhase k none).redeemOk
            ⟨args.token, args.purpose, subject, expiresAtMs, s.anchors subject, now, false⟩)
    | _ => none
  | .commitAnchor k next =>
    match s.phases k with
    | some (.commitAnchor args subject anchor expiresAtMs verifiedAt) =>
      -- `commitAnchor` moves the row on.
      if next = some anchor then none
      else if s.anchors subject = some anchor then
        some (((s.setPhase k none).moveRow subject next).redeemOk
          ⟨args.token, args.purpose, subject, expiresAtMs, s.anchors subject, verifiedAt, true⟩)
      else some (s.setPhase k none)
    | _ => none
  | .fail k => (s.phases k).map fun _ => s.setPhase k none

/-- A signature that verifies for some text is one that was signed before. -/
def Known (token secret : String) : Prop :=
  ∀ parts text, tokenParts token = some parts → parts.signature = hmac text secret →
    (∃ g ∈ s.granted, g.args.tokenArgs.signature hmac g.expiresAt = parts.signature) ∨
      ∃ m ∈ s.signed, m.1.signature hmac m.2 = parts.signature

/-- The keyed hash is not forged: whoever redeems a token has its signature from the code. -/
def Unforged (s : GrantWorld) : GrantAct → Prop
  | .redeem _ args => ∀ secret, args.secret = some secret → s.Known hmac args.token secret
  | _ => True

end GrantWorld

/-! ## What verifies was minted -/

theorem hasDelimiter_eq_false {value : String} : hasDelimiter value = false ↔ ':' ∉ value.toList := by
  simp [hasDelimiter]

theorem isUnambiguousPart_eq_true {value : String} :
    isUnambiguousPart value = true ↔ value ≠ "" ∧ ':' ∉ value.toList := by
  simp [isUnambiguousPart, hasDelimiter_eq_false]

/-- Anchors without colons are read back from a purpose with colons. -/
theorem anchoredPurpose_inj {purpose purpose' anchor anchor' : String}
    (h : anchoredPurpose purpose anchor = anchoredPurpose purpose' anchor')
    (ha : ':' ∉ anchor.toList) (ha' : ':' ∉ anchor'.toList) : purpose = purpose' ∧ anchor = anchor' := by
  have hlist : purpose.toList ++ ':' :: anchor.toList = purpose'.toList ++ ':' :: anchor'.toList := by
    simpa [anchoredPurpose] using congrArg String.toList h
  obtain ⟨hpurpose, hanchor⟩ := eq_of_append_cons_eq_last hlist ha ha'
  exact ⟨String.toList_injective hpurpose, String.toList_injective hanchor⟩

/-- No purpose of the framework is an anchored one. -/
theorem anchoredPurpose_ne_text (purpose anchor : String) (p : TokenPurpose) :
    anchoredPurpose purpose anchor ≠ p.text := by
  intro h
  have hmem : ':' ∈ (anchoredPurpose purpose anchor).toList := by simp [anchoredPurpose]
  rw [h] at hmem
  cases p <;> exact absurd hmem (by decide)

theorem signRowBoundGrant_ok {hmac : String → String → String} {args : SignGrantArgs} {token : String} {expiresAt : ℤ}
    (h : signRowBoundGrant hmac args = .ok (token, expiresAt)) :
    ':' ∉ args.anchor.toList ∧ ':' ∉ args.subject.toList ∧
      signToken hmac args.tokenArgs = some (token, expiresAt) := by
  unfold signRowBoundGrant at h
  split at h
  · cases h
  · next hdelimiter =>
    simp only [Bool.or_eq_true, not_or, Bool.not_eq_true, hasDelimiter_eq_false] at hdelimiter
    split at h
    · cases h
    · next signed hsigned =>
      cases h
      exact ⟨hdelimiter.1, hdelimiter.2, hsigned⟩

namespace GrantWorld

variable {hmac : String → String → String} {s s' : GrantWorld}

/-- The token carries the signature for the purpose, the row and the anchor. -/
def Carries (hmac : String → String → String) (token purpose subject anchor : String) : Prop :=
  ∃ parts secret, tokenParts token = some parts ∧ ':' ∉ subject.toList ∧ ':' ∉ anchor.toList ∧
    parts.signature = hmac (payload (anchoredPurpose purpose anchor) subject parts.expiresAtRaw) secret

/-- The token was minted for the purpose, the row and the anchor, and the moment is not after its expiry. -/
def MintedFor (s : GrantWorld) (token purpose subject anchor : String) (expiresAtMs : ℚ) (now : ℤ) : Prop :=
  ∃ g ∈ s.granted, g.token = token ∧ g.args.purpose = purpose ∧ g.args.subject = subject ∧ g.args.anchor = anchor ∧
    epochMilliseconds g.expiresAt = expiresAtMs ∧ now ≤ g.expiresAt

/-- What a verified token is. -/
structure Vouched (hmac : String → String → String) (s : GrantWorld) (token purpose subject anchor : String)
    (expiresAtMs : ℚ) (now : ℤ) : Prop where
  carries : Carries hmac token purpose subject anchor
  minted : s.MintedFor token purpose subject anchor expiresAtMs now

/-- A token carries the signature for one row and one anchor only. -/
theorem Carries.inj {token purpose purpose' subject subject' anchor anchor' : String}
    (hinj : ∀ text secret text' secret', hmac text secret = hmac text' secret' → text = text')
    (h : Carries hmac token purpose subject anchor) (h' : Carries hmac token purpose' subject' anchor') :
    purpose = purpose' ∧ subject = subject' ∧ anchor = anchor' := by
  obtain ⟨parts, secret, hparts, hsubject, hanchor, hsignature⟩ := h
  obtain ⟨parts', secret', hparts', hsubject', hanchor', hsignature'⟩ := h'
  obtain rfl := Option.some.inj (hparts.symm.trans hparts')
  have htext := hinj _ _ _ _ (hsignature.symm.trans hsignature')
  have hdot := (of_tokenParts hparts).dot_notMem
  obtain ⟨hpurpose, hsub, -⟩ := payload_inj htext hsubject hsubject' hdot hdot
  obtain ⟨hpurpose, hanc⟩ := anchoredPurpose_inj hpurpose hanchor hanchor'
  exact ⟨hpurpose, hsub, hanc⟩

/-- What is known of a redemption before its next statement. -/
def PhaseOk (hmac : String → String → String) (s : GrantWorld) : RedeemPhase → Prop
  | .loadAnchor args secret subject =>
    s.Known hmac args.token secret ∧ peekTokenSubject args.token = some subject ∧ ':' ∉ subject.toList
  | .commitAnchor args subject anchor expiresAtMs verifiedAt =>
    s.Vouched hmac args.token args.purpose subject anchor expiresAtMs verifiedAt

/-- What was signed is what the code signs, and what is redeemed was minted. -/
structure GrantInv (hmac : String → String → String) (s : GrantWorld) : Prop where
  granted : ∀ g ∈ s.granted, signRowBoundGrant hmac g.args = .ok (g.token, g.expiresAt)
  signed : ∀ m ∈ s.signed, ∃ p : TokenPurpose, m.1.purpose = p.text ∧ ':' ∉ m.1.userId.toList
  phases : ∀ k phase, s.phases k = some phase → s.PhaseOk hmac phase
  redeemed : ∀ r ∈ s.redeemed, ∃ anchor, r.anchor = some anchor ∧
    s.Vouched hmac r.token r.purpose r.subject anchor r.expiresAtMs r.verifiedAt

/-- A token that verifies for the anchor of its row was minted for that. -/
theorem GrantInv.vouched (hinj : ∀ text secret text' secret', hmac text secret = hmac text' secret' → text = text')
    (hi : s.GrantInv hmac) {args : RedeemArgs} {secret subject anchor : String} {loaded : Option String} {now : ℤ}
    {expiresAtMs : ℚ} (hp : s.PhaseOk hmac (.loadAnchor args secret subject))
    (h : redeemLoaded hmac args secret loaded now = .ok (some (anchor, expiresAtMs))) :
    loaded = some anchor ∧ s.Vouched hmac args.token args.purpose subject anchor expiresAtMs now := by
  obtain ⟨hknown, hpeek, hsubject⟩ := hp
  unfold redeemLoaded at h
  split at h
  · cases h
  · next anchor' hloaded =>
    obtain ⟨hloaded, hunambiguous⟩ := Option.filter_eq_some_iff.1 hloaded
    obtain ⟨-, hanchor⟩ := isUnambiguousPart_eq_true.1 hunambiguous
    split at h
    · cases h
    · next userId expiresAtMs' hverify =>
      cases h
      obtain ⟨parts, expiresAt, hparts, huser, hms, hsignature, hinstant, hnow⟩ := verifyToken_ok hverify
      obtain ⟨parts', hparts', hsub⟩ := peekTokenSubject_eq_some.1 hpeek
      obtain rfl := Option.some.inj (hparts.symm.trans hparts')
      obtain rfl : userId = subject := huser.symm.trans hsub
      have hof := of_tokenParts hparts
      refine ⟨hloaded, ⟨parts, secret, hparts, hsubject, hanchor, hsignature⟩, ?_⟩
      rcases hknown parts _ hparts hsignature with ⟨g, hg, hgsig⟩ | ⟨m, hm, hmsig⟩
      · -- The signed texts agree, and so do purpose, anchor, subject and expiry.
        obtain ⟨hganchor, hgsubject, hsigned⟩ := signRowBoundGrant_ok (hi.granted g hg)
        obtain ⟨instant, hadd, hpair⟩ := Option.map_eq_some_iff.1 hsigned
        obtain ⟨htoken, rfl⟩ := Prod.mk.inj hpair
        have htext := hinj _ _ _ _ (hgsig.trans hsignature)
        obtain ⟨hpurpose, hsub', hexpiry⟩ :=
          payload_inj htext hgsubject hsubject (dot_notMem_toString _) hof.dot_notMem
        obtain ⟨hpurpose, hanc⟩ := anchoredPurpose_inj hpurpose hganchor hanchor
        have hnumber := hof.number
        rw [← hexpiry, finiteNumber_toString (abs_epochMilliseconds_le hadd), hms] at hnumber
        refine ⟨g, hg, ?_, hpurpose, hsub', hanc, Option.some.inj hnumber, ?_⟩
        · rw [← htoken, hof.token_eq, ← hexpiry, ← hgsig, huser, ← hsub']
        · rw [← Option.some.inj hnumber] at hinstant
          simp only [fromEpochMilliseconds, Option.ite_none_right_eq_some, Option.some.injEq] at hinstant
          have hms' := hinstant.2
          simp only [Rat.num_intCast, epochMilliseconds] at hms'
          omega
      · -- No other purpose has the form of an anchored one.
        obtain ⟨p, hpurpose, huserId⟩ := hi.signed m hm
        have htext := hinj _ _ _ _ (hmsig.trans hsignature)
        obtain ⟨hanchored, -, -⟩ :=
          payload_inj htext huserId hsubject (dot_notMem_toString _) hof.dot_notMem
        exact absurd (hanchored.symm.trans hpurpose) (anchoredPurpose_ne_text _ _ p)
    · cases h

/-! ## Steps -/

theorem Known.mono {token secret : String} (h : s.Known hmac token secret) (hg : s.granted ⊆ s'.granted)
    (hm : s.signed ⊆ s'.signed) : s'.Known hmac token secret := by
  intro parts text hparts hsignature
  rcases h parts text hparts hsignature with ⟨g, hgm, hsig⟩ | ⟨m, hmm, hsig⟩
  · exact .inl ⟨g, hg hgm, hsig⟩
  · exact .inr ⟨m, hm hmm, hsig⟩

theorem Vouched.mono {token purpose subject anchor : String} {expiresAtMs : ℚ} {now : ℤ}
    (h : s.Vouched hmac token purpose subject anchor expiresAtMs now) (hg : s.granted ⊆ s'.granted) :
    s'.Vouched hmac token purpose subject anchor expiresAtMs now := by
  obtain ⟨g, hgm, hfor⟩ := h.minted
  exact ⟨h.carries, g, hg hgm, hfor⟩

theorem PhaseOk.mono {phase : RedeemPhase} (h : s.PhaseOk hmac phase) (hg : s.granted ⊆ s'.granted)
    (hm : s.signed ⊆ s'.signed) : s'.PhaseOk hmac phase := by
  cases phase with
  | loadAnchor args secret subject => exact ⟨Known.mono h.1 hg hm, h.2⟩
  | commitAnchor args subject anchor expiresAtMs verifiedAt => exact Vouched.mono h hg

/-- Signing more keeps what is known of the redemptions. -/
theorem GrantInv.grow (hi : s.GrantInv hmac) (hg : s.granted ⊆ s'.granted) (hm : s.signed ⊆ s'.signed)
    (hphases : s'.phases = s.phases) (hredeemed : s'.redeemed = s.redeemed)
    (hgranted : ∀ g ∈ s'.granted, signRowBoundGrant hmac g.args = .ok (g.token, g.expiresAt))
    (hsigned : ∀ m ∈ s'.signed, ∃ p : TokenPurpose, m.1.purpose = p.text ∧ ':' ∉ m.1.userId.toList) :
    s'.GrantInv hmac where
  granted := hgranted
  signed := hsigned
  phases k phase h := (hi.phases k phase (hphases ▸ h)).mono hg hm
  redeemed r h := by
    obtain ⟨anchor, hanchor, hv⟩ := hi.redeemed r (hredeemed ▸ h)
    exact ⟨anchor, hanchor, hv.mono hg⟩

theorem GrantInv.setPhase (hi : s.GrantInv hmac) (k : ℕ) {phase : Option RedeemPhase}
    (h : ∀ p, phase = some p → s.PhaseOk hmac p) : (s.setPhase k phase).GrantInv hmac where
  granted := hi.granted
  signed := hi.signed
  phases j p hp := by
    rcases eq_or_ne j k with rfl | hj
    · exact (h p (by simpa [GrantWorld.setPhase] using hp)).mono (List.Subset.refl _) (List.Subset.refl _)
    · have hp' : s.phases j = some p := by simpa [GrantWorld.setPhase, hj] using hp
      exact (hi.phases j p hp').mono (List.Subset.refl _) (List.Subset.refl _)
  redeemed r h := by
    obtain ⟨anchor, hanchor, hv⟩ := hi.redeemed r h
    exact ⟨anchor, hanchor, hv.mono (List.Subset.refl _)⟩

theorem GrantInv.endPhase (hi : s.GrantInv hmac) (k : ℕ) : (s.setPhase k none).GrantInv hmac :=
  hi.setPhase k fun _ h => nomatch h

theorem GrantInv.moveRow (hi : s.GrantInv hmac) (subject : String) (anchor : Option String) :
    (s.moveRow subject anchor).GrantInv hmac :=
  hi.grow (List.Subset.refl _) (List.Subset.refl _) rfl rfl hi.granted hi.signed

theorem GrantInv.redeemOk (hi : s.GrantInv hmac) {r : Redemption} {anchor : String} (hr : r.anchor = some anchor)
    (hv : s.Vouched hmac r.token r.purpose r.subject anchor r.expiresAtMs r.verifiedAt) :
    (s.redeemOk r).GrantInv hmac where
  granted := hi.granted
  signed := hi.signed
  phases k p hp := (hi.phases k p hp).mono (List.Subset.refl _) (List.Subset.refl _)
  redeemed r' h := by
    rcases List.mem_cons.1 h with rfl | h
    · exact ⟨anchor, hr, hv.mono (List.Subset.refl _)⟩
    · obtain ⟨anchor', hanchor', hv'⟩ := hi.redeemed r' h
      exact ⟨anchor', hanchor', hv'.mono (List.Subset.refl _)⟩

theorem redeemSubject_ok {args : RedeemArgs} {secret subject : String}
    (h : redeemSubject args = .ok (some (secret, subject))) :
    args.secret = some secret ∧ peekTokenSubject args.token = some subject ∧ ':' ∉ subject.toList := by
  unfold redeemSubject at h
  rcases ite_eq_iff.1 h with ⟨-, h⟩ | ⟨-, h⟩
  · cases h
  · obtain ⟨secret', hsecret, hrest⟩ := Option.bind_eq_some_iff.1 (Except.ok.inj h)
    obtain ⟨subject', hsubject, hpair⟩ := Option.bind_eq_some_iff.1 hrest
    cases hpair
    obtain ⟨hpeek, hunambiguous⟩ := Option.filter_eq_some_iff.1 hsubject
    exact ⟨(Option.filter_eq_some_iff.1 hsecret).1, hpeek, (isUnambiguousPart_eq_true.1 hunambiguous).2⟩

/-- Every step keeps that what is redeemed was minted. -/
theorem GrantInv.step (hinj : ∀ text secret text' secret', hmac text secret = hmac text' secret' → text = text')
    (hi : s.GrantInv hmac) {a : GrantAct} (hu : s.Unforged hmac a) (hs : step hmac s a = some s') :
    s'.GrantInv hmac := by
  cases a with
  | setClock now =>
    cases hs
    exact hi.grow (List.Subset.refl _) (List.Subset.refl _) rfl rfl hi.granted hi.signed
  | writeRow subject anchor =>
    cases hs
    split
    · exact hi
    · exact hi.moveRow subject anchor
  | sign args =>
    simp only [GrantWorld.step] at hs
    split at hs
    · cases hs; exact hi
    · next token expiresAt hsign =>
      cases hs
      refine hi.grow (List.subset_cons_self _ _) (List.Subset.refl _) rfl rfl (fun g hg => ?_) hi.signed
      rcases List.mem_cons.1 hg with rfl | hg
      · exact hsign
      · exact hi.granted g hg
  | signToken userId purpose ttlMinutes secret now =>
    simp only [GrantWorld.step] at hs
    split at hs
    · cases hs
    · next hdelimiter =>
      split at hs
      · cases hs; exact hi
      · cases hs
        refine hi.grow (List.Subset.refl _) (List.subset_cons_self _ _) rfl rfl hi.granted fun m hm => ?_
        rcases List.mem_cons.1 hm with rfl | hm
        · exact ⟨purpose, rfl, hasDelimiter_eq_false.1 (by simpa using hdelimiter)⟩
        · exact hi.signed m hm
  | redeem k args =>
    simp only [GrantWorld.step] at hs
    split at hs
    · cases hs; exact hi.endPhase k
    · cases hs; exact hi.endPhase k
    · next secret subject hsubject =>
      cases hs
      obtain ⟨hsecret, hpeek, hcolon⟩ := redeemSubject_ok hsubject
      exact hi.setPhase k fun p hp => Option.some.inj hp ▸ ⟨hu secret hsecret, hpeek, hcolon⟩
  | loadAnchor k =>
    simp only [GrantWorld.step] at hs
    split at hs
    · next args secret subject hphase =>
      split at hs
      · cases hs; exact hi.endPhase k
      · cases hs; exact hi.endPhase k
      · next anchor expiresAtMs hloaded =>
        obtain ⟨hanchor, hv⟩ := hi.vouched hinj (hi.phases k _ hphase) hloaded
        split at hs
        · cases hs
          exact hi.setPhase k fun p hp => Option.some.inj hp ▸ hv
        · cases hs
          exact (hi.endPhase k).redeemOk hanchor (hv.mono (List.Subset.refl _))
    · cases hs
  | commitAnchor k next =>
    simp only [GrantWorld.step] at hs
    split at hs
    · next args subject anchor expiresAtMs verifiedAt hphase =>
      split at hs
      · cases hs
      · split at hs
        · next hanchor =>
          cases hs
          have hv : s.Vouched hmac args.token args.purpose subject anchor expiresAtMs verifiedAt :=
            hi.phases k _ hphase
          exact ((hi.endPhase k).moveRow subject next).redeemOk hanchor (hv.mono (List.Subset.refl _))
        · cases hs; exact hi.endPhase k
    · cases hs
  | fail k =>
    obtain ⟨-, -, rfl⟩ := Option.map_eq_some_iff.1 hs
    exact hi.endPhase k

/-! ## Spent anchors -/

/-- The redemptions that spent this anchor of this row. -/
def spentOf (s : GrantWorld) (subject anchor : String) : ℕ :=
  s.redeemed.countP fun r => r.spent && r.subject = subject && r.anchor = some anchor

/-- Each redemption that spends an anchor takes it from a row that was given it. -/
def SpentInv (s : GrantWorld) : Prop :=
  ∀ subject anchor, s.spentOf subject anchor + (if s.anchors subject = some anchor then 1 else 0) ≤
    s.given.count (subject, anchor)

theorem count_given_moveRow (s : GrantWorld) (subject subject' anchor : String) (next : Option String) :
    (s.moveRow subject next).given.count (subject', anchor) =
      (if subject' = subject ∧ next = some anchor then 1 else 0) + s.given.count (subject', anchor) := by
  cases next with
  | none => simp [moveRow]
  | some next =>
    have hpair : ((subject, next) == (subject', anchor)) = decide (subject' = subject ∧ some next = some anchor) := by
      rw [Bool.eq_iff_iff, beq_iff_eq, decide_eq_true_iff, Prod.mk.injEq, Option.some.injEq]
      exact and_congr_left' eq_comm
    simp [moveRow, List.count_cons, hpair, add_comm]

/-- Only the redemptions, the anchors and what rows were given matter. -/
theorem SpentInv.congr (hi : s.SpentInv) (hr : s'.redeemed = s.redeemed) (ha : s'.anchors = s.anchors)
    (hg : s'.given = s.given) : s'.SpentInv := by
  intro subject anchor
  have h := hi subject anchor
  rwa [spentOf, hr, ha, hg]

theorem SpentInv.moveRow (hi : s.SpentInv) (subject : String) (next : Option String) :
    (s.moveRow subject next).SpentInv := by
  intro subject' anchor
  have h := hi subject' anchor
  rw [count_given_moveRow]
  have hspent : (s.moveRow subject next).spentOf subject' anchor = s.spentOf subject' anchor := rfl
  rw [hspent]
  rcases eq_or_ne subject' subject with rfl | hne
  · simp only [GrantWorld.moveRow, Function.update_self, true_and]
    omega
  · simp only [GrantWorld.moveRow, Function.update_of_ne hne]
    omega

theorem SpentInv.redeemUnspent (hi : s.SpentInv) {r : Redemption} (hr : r.spent = false) : (s.redeemOk r).SpentInv := by
  intro subject anchor
  have h := hi subject anchor
  have hspent : (s.redeemOk r).spentOf subject anchor = s.spentOf subject anchor := by simp [spentOf, redeemOk, hr]
  rwa [hspent]

/-- The conditional update spends the anchor that the row carried. -/
theorem SpentInv.spend (hi : s.SpentInv) {r : Redemption} {anchor : String} {next : Option String}
    (hr : r.anchor = some anchor) (hcarries : s.anchors r.subject = some anchor) (hnext : next ≠ some anchor) :
    ((s.moveRow r.subject next).redeemOk r).SpentInv := by
  intro subject' anchor'
  have h := hi.moveRow r.subject next subject' anchor'
  by_cases hat : subject' = r.subject ∧ anchor' = anchor
  · obtain ⟨rfl, rfl⟩ := hat
    -- The row carried the anchor before, and does not any more.
    have hbefore := hi r.subject anchor'
    rw [if_pos hcarries] at hbefore
    have hgiven : ((s.moveRow r.subject next).redeemOk r).given.count (r.subject, anchor') =
        s.given.count (r.subject, anchor') := by
      have hcount := count_given_moveRow s r.subject r.subject anchor' next
      rwa [if_neg (fun hc => hnext hc.2), zero_add] at hcount
    have hafter : ((s.moveRow r.subject next).redeemOk r).anchors r.subject = next := by
      simp [redeemOk, GrantWorld.moveRow]
    have hspent : ((s.moveRow r.subject next).redeemOk r).spentOf r.subject anchor' ≤
        s.spentOf r.subject anchor' + 1 := by
      simp only [spentOf, redeemOk, List.countP_cons, GrantWorld.moveRow]
      split <;> omega
    rw [hgiven, hafter, if_neg hnext]
    omega
  · have hspent : ((s.moveRow r.subject next).redeemOk r).spentOf subject' anchor' =
        (s.moveRow r.subject next).spentOf subject' anchor' := by
      have hother : (r.spent && r.subject = subject' && r.anchor = some anchor') = false := by
        rw [hr]
        simp only [Bool.and_eq_false_iff, decide_eq_false_iff_not, Option.some.injEq]
        by_contra hall
        push Not at hall
        exact hat ⟨hall.1.2.symm, hall.2.symm⟩
      simp only [spentOf, redeemOk, List.countP_cons, hother]
      rfl
    rwa [hspent]

/-- Every step keeps that each anchor is spent as often as it was given at most. -/
theorem SpentInv.step (hi : s.SpentInv) {a : GrantAct} (hs : GrantWorld.step hmac s a = some s') : s'.SpentInv := by
  cases a with
  | setClock now => cases hs; exact hi.congr rfl rfl rfl
  | writeRow subject anchor =>
    cases hs
    split
    · exact hi
    · exact hi.moveRow subject anchor
  | sign args =>
    simp only [GrantWorld.step] at hs
    split at hs <;> cases hs
    · exact hi
    · exact hi.congr rfl rfl rfl
  | signToken userId purpose ttlMinutes secret now =>
    simp only [GrantWorld.step] at hs
    split at hs
    · cases hs
    · split at hs <;> cases hs
      · exact hi
      · exact hi.congr rfl rfl rfl
  | redeem k args =>
    simp only [GrantWorld.step] at hs
    split at hs <;> cases hs <;> exact hi.congr rfl rfl rfl
  | loadAnchor k =>
    simp only [GrantWorld.step] at hs
    split at hs
    · split at hs
      · cases hs; exact hi.congr rfl rfl rfl
      · cases hs; exact hi.congr rfl rfl rfl
      · split at hs <;> cases hs
        · exact hi.congr rfl rfl rfl
        · have hphase : (s.setPhase k none).SpentInv := hi.congr rfl rfl rfl
          exact hphase.redeemUnspent rfl
    · cases hs
  | commitAnchor k next =>
    simp only [GrantWorld.step] at hs
    split at hs
    · split at hs
      · cases hs
      · next hnext =>
        split at hs
        · next hanchor =>
          cases hs
          have hphase : (s.setPhase k none).SpentInv := hi.congr rfl rfl rfl
          exact hphase.spend hanchor hanchor hnext
        · cases hs; exact hi.congr rfl rfl rfl
    · cases hs
  | fail k =>
    obtain ⟨-, -, rfl⟩ := Option.map_eq_some_iff.1 hs
    exact hi.congr rfl rfl rfl

/-! ## Runs -/

theorem grantInv_initial (now : ℤ) : (initial now).GrantInv hmac where
  granted _ h := nomatch h
  signed _ h := nomatch h
  phases _ _ h := nomatch h
  redeemed _ h := nomatch h

theorem inv_of_run {now : ℤ}
    (hinj : ∀ text secret text' secret', hmac text secret = hmac text' secret' → text = text')
    (hr : Run (step hmac) (Unforged hmac) (initial now) s) : s.GrantInv hmac ∧ s.SpentInv := by
  have hgrant : s.GrantInv hmac := hr.invariant (grantInv_initial now) fun _ _ _ hi hu hs => hi.step hinj hu hs
  have hspent : s.SpentInv :=
    hr.invariant (fun _ _ => by simp [initial, spentOf]) fun _ _ _ hi _ hs => SpentInv.step hi hs
  exact ⟨hgrant, hspent⟩

/-- The redemptions of one token are redemptions of one anchor of one row. -/
theorem GrantInv.countP_token_le
    (hinj : ∀ text secret text' secret', hmac text secret = hmac text' secret' → text = text')
    (hi : s.GrantInv hmac) {r : Redemption} (hr : r ∈ s.redeemed) {anchor : String} (hanchor : r.anchor = some anchor) :
    (s.redeemed.countP fun r' => r'.spent && r'.token = r.token) ≤ s.spentOf r.subject anchor := by
  refine List.countP_mono_left fun r' hr' htoken => ?_
  simp only [Bool.and_eq_true, decide_eq_true_eq] at htoken
  obtain ⟨anchor₁, hanchor₁, hv⟩ := hi.redeemed r hr
  obtain ⟨anchor₂, hanchor₂, hv'⟩ := hi.redeemed r' hr'
  obtain rfl := Option.some.inj (hanchor.symm.trans hanchor₁)
  obtain ⟨-, hsubject, hsame⟩ := (htoken.2 ▸ hv'.carries).inj hinj hv.carries
  simp [htoken.1, hsubject, hanchor₂, hsame]

/-- In every run without forgeries, a redeemed token was minted for its purpose, its row and the anchor that the row
has, and has not expired; an anchor is spent at most as often as its row is given it; and where no row is given an
anchor twice, no token spends one twice. -/
theorem redemptions_of_run
    (hinj : ∀ text secret text' secret', hmac text secret = hmac text' secret' → text = text') {now : ℤ}
    (hr : Run (step hmac) (Unforged hmac) (initial now) s) :
    (∀ r ∈ s.redeemed, ∃ g ∈ s.granted, signRowBoundGrant hmac g.args = .ok (r.token, g.expiresAt) ∧
      g.args.purpose = r.purpose ∧ g.args.subject = r.subject ∧ r.anchor = some g.args.anchor ∧
      r.verifiedAt ≤ g.expiresAt) ∧
    (∀ subject anchor, s.spentOf subject anchor ≤ s.given.count (subject, anchor)) ∧
    (s.given.Nodup → ∀ token, (s.redeemed.countP fun r => r.spent && r.token = token) ≤ 1) := by
  obtain ⟨hi, hspent⟩ := inv_of_run hinj hr
  have hle (subject anchor : String) : s.spentOf subject anchor ≤ s.given.count (subject, anchor) :=
    Nat.le_of_add_right_le (hspent subject anchor)
  refine ⟨fun r hr => ?_, hle, fun hnodup token => ?_⟩
  · obtain ⟨anchor, hanchor, hv⟩ := hi.redeemed r hr
    obtain ⟨g, hg, htoken, hpurpose, hsubject, rfl, -, hnow⟩ := hv.minted
    exact ⟨g, hg, htoken ▸ hi.granted g hg, hpurpose, hsubject, hanchor, hnow⟩
  · by_cases hnone : (s.redeemed.countP fun r => r.spent && r.token = token) = 0
    · omega
    · obtain ⟨r, hr, htoken⟩ := List.countP_pos_iff.1 (Nat.pos_of_ne_zero hnone)
      simp only [Bool.and_eq_true, decide_eq_true_eq] at htoken
      obtain ⟨-, rfl⟩ := htoken
      obtain ⟨anchor, hanchor, -⟩ := hi.redeemed r hr
      calc (s.redeemed.countP fun r' => r'.spent && r'.token = r.token)
          ≤ s.spentOf r.subject anchor := hi.countP_token_le hinj hr hanchor
        _ ≤ s.given.count (r.subject, anchor) := hle _ _
        _ ≤ 1 := List.nodup_iff_count_le_one.1 hnodup _

/-! One token that two calls redeem at once. -/

def handoverGrant : SignGrantArgs := ⟨"row-1", "handover:account", "req-7", 30, "row-grant-secret", 0⟩

/-- The hash of the signed text of this grant; every other text is its own. -/
def sampleHmac (text secret : String) : String :=
  if text = "handover:account:req-7:row-1.1800000" ∧ secret = "row-grant-secret" then
    "zhq8D6QZZqlvc70NQ7fYT20R3NuYc5GOc6d2JZ7bzI4"
  else "." ++ text

theorem sampleHmac_inj (text secret text' secret' : String) (h : sampleHmac text secret = sampleHmac text' secret') :
    text = text' := by
  have hdot (t : String) : "zhq8D6QZZqlvc70NQ7fYT20R3NuYc5GOc6d2JZ7bzI4" ≠ "." ++ t := fun he => by
    simpa using congrArg (fun v => v.toList.head?) he
  unfold sampleHmac at h
  split at h
  · next hat =>
    split at h
    · next hat' => rw [hat.1, hat'.1]
    · exact absurd h (hdot _)
  · split at h
    · exact absurd h.symm (hdot _)
    · exact String.toList_injective (by simpa using congrArg String.toList h)

def handoverToken : String := "row-1.1800000.zhq8D6QZZqlvc70NQ7fYT20R3NuYc5GOc6d2JZ7bzI4"

def twoRedemptions : List GrantAct :=
  let args : RedeemArgs := ⟨handoverToken, "handover:account", some "row-grant-secret", .commitAnchor, none⟩
  [.sign handoverGrant, .writeRow "row-1" (some "req-7"), .redeem 0 args, .redeem 1 args, .loadAnchor 0,
    .loadAnchor 1, .commitAnchor 0 none, .commitAnchor 1 none]

/-- Whether the signature of a token is one of a grant. -/
def signedAbove (s : GrantWorld) : GrantAct → Bool
  | .redeem _ args => (tokenParts args.token).all fun parts =>
    s.granted.any fun g => g.args.tokenArgs.signature sampleHmac g.expiresAt = parts.signature
  | _ => true

theorem unforged_of_signedAbove {s : GrantWorld} {a : GrantAct} (h : signedAbove s a = true) :
    s.Unforged sampleHmac a := by
  cases a with
  | redeem k args =>
    intro secret _ parts text hparts _
    rw [signedAbove, hparts, Option.all_some] at h
    obtain ⟨g, hg, hsignature⟩ := List.any_eq_true.1 h
    exact .inl ⟨g, hg, of_decide_eq_true hsignature⟩
  | _ => trivial

theorem redemptions_of_twoRedemptions : ∃ s : GrantWorld, s.redeemed.length = 1 ∧
    ((∀ r ∈ s.redeemed, ∃ g ∈ s.granted, signRowBoundGrant sampleHmac g.args = .ok (r.token, g.expiresAt) ∧
      g.args.purpose = r.purpose ∧ g.args.subject = r.subject ∧ r.anchor = some g.args.anchor ∧
      r.verifiedAt ≤ g.expiresAt) ∧
    (∀ subject anchor, s.spentOf subject anchor ≤ s.given.count (subject, anchor)) ∧
    (s.given.Nodup → ∀ token, (s.redeemed.countP fun r => r.spent && r.token = token) ≤ 1)) := by
  obtain ⟨s, hrun, hs⟩ := exists_run_of_execOk (step sampleHmac) signedAbove (initial 0) twoRedemptions
    (fun s => s.redeemed.length = 1) (fun _ _ => unforged_of_signedAbove) (by decide +kernel) (by decide +kernel)
  exact ⟨s, of_decide_eq_true hs, redemptions_of_run sampleHmac_inj hrun⟩

end GrantWorld

end Kumiko
