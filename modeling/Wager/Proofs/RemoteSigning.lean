import Mathlib.Logic.Relation
import Wager.Peer.Mailbox
import Wager.Peer.Negotiation
import Wager.Proofs.Signatures

/-!
# Signing over a connection

A player who lacks a key asks the peer who holds it. The two have a mailbox each, and what happens
between them is a run of steps (`Connection.Step`): a message is carried from one mailbox to the
other, the oldest of its topic first, or the peer serves a request. The requester waits through any
number of steps in any order.

**One request under way.** A request is asked, then waits for the peer, and is answered by a reply
that is then returned (`Traffic.Underway`). No step leaves these four phases (`underway_step`), so
no run does (`underway_run`), and the only reply that can ever arrive is the one to this request.

**The same digest.** The peer reads the draft without its empty scripts. It signs the same digest,
because a digest covers no unlocking script.

Main result: `Connection.remote_agrees`.
-/

namespace Wager

open Exchange Cursor Decoder

/-! ## Requests read back -/

theorem SignRequest.decode_encode {d : Draft} {index : Nat} {code : Script}
    (hindex : index < d.inputs.length) (hword : index < UInt32.size)
    (haddressable : (encode ⟨d, index, code⟩).length < UInt64.size) :
    decode (encode ⟨d, index, code⟩) = .ok ⟨d.settled, index, code⟩ := by
  have hsize := code.size_le_length_encode
  have hlen : d.encode.length + code.encode.length < UInt64.size := by
    simp only [encode, Encode.sized, List.length_append] at haddressable
    omega
  have hinputs : d.inputs ≠ [] := by
    intro hnone
    rw [hnone] at hindex
    exact absurd hindex (Nat.not_lt_zero index)
  have hroundtrip : (UInt32.ofNat index).toNat = index := UInt32.toNat_ofNat_of_lt' hword
  have hread : decoder.decodeAll (encode ⟨d, index, code⟩) = .ok ⟨d.settled, index, code⟩ := by
    apply decodeAll_of_passes
    intro c c' h
    obtain ⟨c₁, hdraft, h⟩ := passes_append.1 h
    obtain ⟨c₂, hplace, hcode⟩ := passes_append.1 h
    refine gives_bind.2 ⟨d.encode, c₁, gives_sized (by omega) hdraft, ?_⟩
    refine gives_bind.2 ⟨d.settled, c₁,
      gives_lift.2 ⟨Draft.decode_encode (by omega) hinputs, rfl⟩, ?_⟩
    refine gives_bind.2 ⟨UInt32.ofNat index, c₂, gives_u32.2 hplace, ?_⟩
    refine gives_bind.2 ⟨code, c', Script.gives_decoder (by omega) hcode, gives_pure.2 ⟨?_, rfl⟩⟩
    rw [hroundtrip]
  rw [decode, hread, Outcome.ok_bind, if_pos]
  · rfl
  · rwa [Draft.length_settled]

/-! ## Messages on a topic -/

namespace Mailbox

/-- The messages on a topic, the oldest first. -/
def messages (topic : Topic) (entries : List (Topic × Bytes)) : List Bytes :=
  (entries.filter (·.1 = topic)).map (·.2)

variable {topic topic' : Topic} {entries : List (Topic × Bytes)} {m : Mailbox} {message : Bytes}

theorem messages_concat : messages topic (entries ++ [(topic, message)]) =
    messages topic entries ++ [message] := by
  simp [messages]

theorem messages_concat_of_ne (h : topic' ≠ topic) :
    messages topic (entries ++ [(topic', message)]) = messages topic entries := by
  simp [messages, h]

theorem find?_eq_head? (topic : Topic) (entries : List (Topic × Bytes)) :
    (entries.find? (·.1 = topic)).map (·.2) = (messages topic entries).head? := by
  rw [messages, List.head?_map, List.head?_filter]

theorem messages_eraseP (topic : Topic) (entries : List (Topic × Bytes)) :
    messages topic (entries.eraseP (·.1 = topic)) = (messages topic entries).tail := by
  induction entries with
  | nil => rfl
  | cons entry entries ih =>
    by_cases h : entry.1 = topic
    · simp [messages, h]
    · simpa [messages, h] using ih

theorem messages_eraseP_of_ne (h : topic' ≠ topic) (entries : List (Topic × Bytes)) :
    messages topic (entries.eraseP (·.1 = topic')) = messages topic entries := by
  induction entries with
  | nil => rfl
  | cons entry entries ih =>
    by_cases h' : entry.1 = topic'
    · simp [messages, h', h]
    · by_cases ht : entry.1 = topic
      · simpa [messages, ht, h.symm] using ih
      · simpa [messages, h', ht] using ih

theorem eraseP_of_messages (h : messages topic entries = []) :
    entries.eraseP (·.1 = topic) = entries := by
  apply List.eraseP_of_forall_not
  simpa [messages] using h

theorem receive_fst (m : Mailbox) (topic : Topic) :
    (m.receive topic).1 = (messages topic m.waiting).head? := find?_eq_head? topic m.waiting

theorem receive_of_messages (h : messages topic m.waiting = []) : (m.receive topic).2 = m := by
  rw [receive, eraseP_of_messages h]

/-- Carries the oldest message on a topic, if there is one, to the other mailbox. -/
def carry (topic : Topic) (sender receiver : Mailbox) : Mailbox × Mailbox :=
  match (messages topic sender.sent).head? with
  | some message =>
    ({ sender with sent := sender.sent.eraseP (·.1 = topic) }, receiver.deliver topic message)
  | none => (sender, receiver)

variable {sender receiver : Mailbox}

theorem carry_waiting : (carry topic sender receiver).1.waiting = sender.waiting := by
  rw [carry]
  split <;> rfl

theorem carry_sent : (carry topic sender receiver).2.sent = receiver.sent := by
  rw [carry]
  split <;> rfl

theorem messages_carry (topic : Topic) (sender receiver : Mailbox) :
    messages topic (carry topic sender receiver).1.sent = (messages topic sender.sent).tail ∧
    messages topic (carry topic sender receiver).2.waiting =
      messages topic receiver.waiting ++ (messages topic sender.sent).head?.toList := by
  rw [carry]
  split
  · next message hmessage =>
    rw [hmessage]
    exact ⟨messages_eraseP topic sender.sent, messages_concat⟩
  · next hnone =>
    rw [List.head?_eq_none_iff.1 hnone]
    exact ⟨rfl, (List.append_nil _).symm⟩

theorem messages_carry_of_ne (h : topic' ≠ topic) (sender receiver : Mailbox) :
    messages topic (carry topic' sender receiver).1.sent = messages topic sender.sent ∧
    messages topic (carry topic' sender receiver).2.waiting =
      messages topic receiver.waiting := by
  rw [carry]
  split
  · exact ⟨messages_eraseP_of_ne h sender.sent, messages_concat_of_ne h⟩
  · exact ⟨rfl, rfl⟩

end Mailbox

/-! ## Serving a request -/

namespace Link

variable {σ : Type} {w w' : σ} {link : Link σ} {topic : Topic}

theorem resultIn_expect (link : Link σ) (topic : Topic) (w : σ) :
    (link.expect topic).resultIn w = match (link.receive topic).resultIn w with
      | (.ok (some message), w') => (.ok message, w')
      | (.ok none, w') => (.error (.collaborator (.silent topic.name)), w')
      | (.error fault, w') => (.error fault, w') := by
  rw [expect, resultIn_bind]
  rcases (link.receive topic).resultIn w with ⟨fault | message, w'⟩
  · rfl
  · cases message <;> rfl

variable {signer : Signer σ} {approve : SignRequest → Bool} {message : Bytes}

/-- A request that cannot be read is not answered. -/
theorem answerSignRequest_of_unread {fault : Fault}
    (hmessage : (link.expect .signRequest).Gives w message w')
    (hdecode : SignRequest.decode message = .error fault) :
    (link.answerSignRequest signer approve).resultIn w = (.error fault, w') := by
  rw [answerSignRequest, resultIn_bind_of_gives hmessage, hdecode]
  rfl

end Link

namespace Mailbox

variable {signer : Signer Mailbox} {approve : SignRequest → Bool}

theorem gives_expect (h : (m.receive topic).1 = some message) :
    (link.expect topic).Gives m message (m.receive topic).2 := by
  have hreceive : (link.receive topic).resultIn m = (.ok (some message), (m.receive topic).2) := by
    rw [← h]
    rfl
  rw [Gives, Link.resultIn_expect, hreceive]

/-- The oldest signature that waits answers a request, if it is valid. -/
theorem gives_sign {peer : PublicKey} {d : Draft} {index : Nat} {code : Script} {signature : Bytes}
    {waiting sent : List (Topic × Bytes)}
    (hvalid : peer.verifyInput d index code signature = .ok true) :
    ((Signer.remote peer link).sign d index code).Gives ⟨(.signature, signature) :: waiting, sent⟩
      signature ⟨waiting, sent ++ [(.signRequest, SignRequest.encode ⟨d, index, code⟩)]⟩ := by
  exact Signer.gives_sign_remote (link_send .signRequest _ _) (gives_expect rfl) hvalid

/-- Without a request nothing happens. -/
theorem answerSignRequest_of_none (h : messages .signRequest m.waiting = []) :
    ((link.answerSignRequest signer approve).resultIn m).2 = m := by
  have hnone : (m.receive .signRequest).1 = none := by rw [receive_fst, h, List.head?_nil]
  have hreceive : (link.receive .signRequest).resultIn m = (.ok none, m) := by
    rw [← hnone]
    exact congrArg (Prod.mk _) (receive_of_messages h)
  rw [Link.answerSignRequest, resultIn_bind, Link.resultIn_expect, hreceive]

/-- A request that can be read is answered, with an empty signature if it is not approved. -/
theorem answerSignRequest_of_request {request : SignRequest} {signature : Bytes}
    (hmessage : (m.receive .signRequest).1 = some message)
    (hdecode : SignRequest.decode message = .ok request)
    (hsign : ∀ w, (signer.sign request.draft request.index request.code).Gives w signature w) :
    (link.answerSignRequest signer approve).resultIn m = (.ok (approve request),
      (m.receive .signRequest).2.send .signature (if approve request then signature else [])) := by
  rw [Link.answerSignRequest, resultIn_bind_of_gives (gives_expect hmessage),
    resultIn_bind_of_ok hdecode]
  cases approve request with
  | true =>
    rw [if_pos rfl, resultIn_bind_of_gives (hsign _)]
    rfl
  | false => rfl

end Mailbox

/-! ## Steps of a connection -/

/-- The mailboxes of two players, the one who asks and the peer. -/
structure Connection where
  near : Mailbox
  far : Mailbox
deriving DecidableEq

namespace Connection

def there (topic : Topic) (c : Connection) : Connection :=
  ⟨(Mailbox.carry topic c.near c.far).1, (Mailbox.carry topic c.near c.far).2⟩

def back (topic : Topic) (c : Connection) : Connection :=
  ⟨(Mailbox.carry topic c.far c.near).2, (Mailbox.carry topic c.far c.near).1⟩

/-- The peer does one thing. -/
def serve (answer : Exchange Mailbox Bool) (c : Connection) : Connection :=
  ⟨c.near, (answer.resultIn c.far).2⟩

/-- What happens next, while one player waits and the other answers. -/
inductive Step (answer : Exchange Mailbox Bool) (c : Connection) : Connection → Prop
  | there (topic : Topic) : Step answer c (c.there topic)
  | back (topic : Topic) : Step answer c (c.back topic)
  | serve : Step answer c (c.serve answer)

/-- Any number of steps. -/
abbrev Runs (answer : Exchange Mailbox Bool) : Connection → Connection → Prop :=
  Relation.ReflTransGen (Step answer)

/-- The connection as the player sees it who asks. Before a message is received, `wait` happens. -/
def link (wait : Connection → Connection) : Link Connection where
  send topic message := modify fun c => { c with near := c.near.send topic message }
  receive topic := modifyGet fun c =>
    (((wait c).near.receive topic).1,
      { wait c with near := ((wait c).near.receive topic).2 })

/-! ## One request under way -/

/-- Where the requests to sign and the signatures of a connection are. -/
structure Traffic where
  asked : List Bytes
  waiting : List Bytes
  answered : List Bytes
  returned : List Bytes
deriving DecidableEq

def traffic (c : Connection) : Traffic where
  asked := Mailbox.messages .signRequest c.near.sent
  waiting := Mailbox.messages .signRequest c.far.waiting
  answered := Mailbox.messages .signature c.far.sent
  returned := Mailbox.messages .signature c.near.waiting

/-- Nothing is under way. -/
def Quiet (c : Connection) : Prop := c.traffic = ⟨[], [], [], []⟩

/-- One request is under way, or the reply to it. -/
inductive Traffic.Underway (request reply : Bytes) : Traffic → Prop
  | asked : Underway request reply ⟨[request], [], [], []⟩
  | waiting : Underway request reply ⟨[], [request], [], []⟩
  | answered : Underway request reply ⟨[], [], [reply], []⟩
  | returned : Underway request reply ⟨[], [], [], [reply]⟩

theorem Traffic.Underway.eq_returned {request reply : Bytes} {t : Traffic}
    (h : t.Underway request reply) (hreturned : t.returned ≠ []) : t = ⟨[], [], [], [reply]⟩ := by
  cases h with
  | returned => rfl
  | asked | waiting | answered => exact absurd rfl hreturned

variable {c c' : Connection} {topic : Topic}

theorem traffic_there (c : Connection) : (c.there .signRequest).traffic =
    { c.traffic with
      asked := c.traffic.asked.tail
      waiting := c.traffic.waiting ++ c.traffic.asked.head?.toList } := by
  obtain ⟨hsent, hwaiting⟩ := Mailbox.messages_carry .signRequest c.near c.far
  simp only [traffic, there, hsent, hwaiting, Mailbox.carry_waiting, Mailbox.carry_sent]

theorem traffic_there_of_ne (h : topic ≠ .signRequest) (c : Connection) :
    (c.there topic).traffic = c.traffic := by
  obtain ⟨hsent, hwaiting⟩ := Mailbox.messages_carry_of_ne h c.near c.far
  simp only [traffic, there, hsent, hwaiting, Mailbox.carry_waiting, Mailbox.carry_sent]

theorem traffic_back (c : Connection) : (c.back .signature).traffic =
    { c.traffic with
      answered := c.traffic.answered.tail
      returned := c.traffic.returned ++ c.traffic.answered.head?.toList } := by
  obtain ⟨hsent, hwaiting⟩ := Mailbox.messages_carry .signature c.far c.near
  simp only [traffic, back, hsent, hwaiting, Mailbox.carry_waiting, Mailbox.carry_sent]

theorem traffic_back_of_ne (h : topic ≠ .signature) (c : Connection) :
    (c.back topic).traffic = c.traffic := by
  obtain ⟨hsent, hwaiting⟩ := Mailbox.messages_carry_of_ne h c.far c.near
  simp only [traffic, back, hsent, hwaiting, Mailbox.carry_waiting, Mailbox.carry_sent]

section

variable {signer : Signer Mailbox} {approve : SignRequest → Bool} {message signature : Bytes}
  {request : SignRequest}

theorem serve_of_none (h : c.traffic.waiting = []) :
    c.serve (Mailbox.link.answerSignRequest signer approve) = c := by
  rw [serve, Mailbox.answerSignRequest_of_none h]

theorem traffic_serve (h : c.traffic.waiting = [message])
    (hdecode : SignRequest.decode message = .ok request)
    (hsign : ∀ w, (signer.sign request.draft request.index request.code).Gives w signature w) :
    (c.serve (Mailbox.link.answerSignRequest signer approve)).traffic =
      { c.traffic with
        waiting := []
        answered := c.traffic.answered ++ [if approve request then signature else []] } := by
  have hmessages : Mailbox.messages .signRequest c.far.waiting = [message] := h
  have hmessage : (c.far.receive .signRequest).1 = some message := by
    rw [Mailbox.receive_fst, hmessages, List.head?_cons]
  have hrest : Mailbox.messages .signRequest (c.far.receive .signRequest).2.waiting = [] := by
    rw [Mailbox.receive, Mailbox.messages_eraseP, hmessages, List.tail_cons]
  rw [serve, Mailbox.answerSignRequest_of_request hmessage hdecode hsign]
  simp only [traffic, Mailbox.send, hrest, Mailbox.messages_concat]
  rfl

/-- What one step preserves. -/
theorem underway_step (hdecode : SignRequest.decode message = .ok request)
    (hsign : ∀ w, (signer.sign request.draft request.index request.code).Gives w signature w)
    (hstep : Step (Mailbox.link.answerSignRequest signer approve) c c')
    (h : c.traffic.Underway message (if approve request then signature else [])) :
    c'.traffic.Underway message (if approve request then signature else []) := by
  generalize htraffic : c.traffic = t at h
  cases hstep with
  | there topic =>
    by_cases htopic : topic = .signRequest
    · subst htopic
      rw [traffic_there, htraffic]
      cases h with
      | asked => exact .waiting
      | waiting => exact .waiting
      | answered => exact .answered
      | returned => exact .returned
    · rw [traffic_there_of_ne htopic, htraffic]
      exact h
  | back topic =>
    by_cases htopic : topic = .signature
    · subst htopic
      rw [traffic_back, htraffic]
      cases h with
      | asked => exact .asked
      | waiting => exact .waiting
      | answered => exact .returned
      | returned => exact .returned
    · rw [traffic_back_of_ne htopic, htraffic]
      exact h
  | serve =>
    -- Only a request that waits is served.
    cases h with
    | waiting =>
      have hwaiting : c.traffic.waiting = [message] := by rw [htraffic]
      rw [traffic_serve hwaiting hdecode hsign, htraffic]
      exact .answered
    | asked =>
      rw [serve_of_none (by rw [htraffic]), htraffic]
      exact .asked
    | answered =>
      rw [serve_of_none (by rw [htraffic]), htraffic]
      exact .answered
    | returned =>
      rw [serve_of_none (by rw [htraffic]), htraffic]
      exact .returned

/-- What a run preserves. -/
theorem underway_run (hdecode : SignRequest.decode message = .ok request)
    (hsign : ∀ w, (signer.sign request.draft request.index request.code).Gives w signature w)
    (hruns : Runs (Mailbox.link.answerSignRequest signer approve) c c')
    (h : c.traffic.Underway message (if approve request then signature else [])) :
    c'.traffic.Underway message (if approve request then signature else []) := by
  induction hruns with
  | refl => exact h
  | tail _ hstep ih => exact underway_step hdecode hsign hstep ih

end

/-! ## Asking -/

/-- A request is sent. -/
def ask (message : Bytes) (c : Connection) : Connection :=
  { c with near := c.near.send .signRequest message }

/-- The reply is received. -/
def received (c : Connection) : Connection := { c with near := (c.near.receive .signature).2 }

theorem traffic_ask (h : c.Quiet) (message : Bytes) :
    (c.ask message).traffic = ⟨[message], [], [], []⟩ := by
  obtain ⟨hasked, hwaiting, hanswered, hreturned⟩ := Traffic.mk.inj h
  simp only [traffic, ask, Mailbox.send, Mailbox.messages_concat, hasked, hwaiting, hanswered,
    hreturned, List.nil_append]

theorem traffic_received (c : Connection) :
    c.received.traffic = { c.traffic with returned := c.traffic.returned.tail } := by
  simp only [traffic, received, Mailbox.receive, Mailbox.messages_eraseP]

theorem resultIn_expect_link (wait : Connection → Connection) (c : Connection) :
    ((link wait).expect .signature).resultIn c = (match (wait c).traffic.returned with
      | [] => .error (.collaborator (.silent "signature"))
      | message :: _ => .ok message, (wait c).received) := by
  have hreceive : ((link wait).receive .signature).resultIn c =
      (.ok (wait c).traffic.returned.head?, (wait c).received) := by
    rw [traffic, ← Mailbox.receive_fst]
    rfl
  rw [Link.resultIn_expect, hreceive]
  cases (wait c).traffic.returned <;> rfl

section

variable {key : PrivateKey} {approve : SignRequest → Bool} {wait : Connection → Connection}
  {d : Draft} {index : Nat} {code : Script}

/-- The request goes over, is served, and the reply comes back. -/
def roundTrip (answer : Exchange Mailbox Bool) (c : Connection) : Connection :=
  ((c.there .signRequest).serve answer).back .signature

theorem runs_roundTrip (answer : Exchange Mailbox Bool) (c : Connection) :
    Runs answer c (c.roundTrip answer) :=
  ((Relation.ReflTransGen.single (.there .signRequest)).tail .serve).tail (.back .signature)

theorem traffic_roundTrip {signer : Signer Mailbox} {message signature : Bytes}
    {request : SignRequest} (h : c.traffic = ⟨[message], [], [], []⟩)
    (hdecode : SignRequest.decode message = .ok request)
    (hsign : ∀ w, (signer.sign request.draft request.index request.code).Gives w signature w) :
    (c.roundTrip (Mailbox.link.answerSignRequest signer approve)).traffic =
      ⟨[], [], [], [if approve request then signature else []]⟩ := by
  have hthere : (c.there .signRequest).traffic = ⟨[], [message], [], []⟩ := by
    rw [traffic_there, h]
    rfl
  have hserve : ((c.there .signRequest).serve
      (Mailbox.link.answerSignRequest signer approve)).traffic = _ :=
    traffic_serve (congrArg Traffic.waiting hthere) hdecode hsign
  rw [roundTrip, traffic_back, hserve, hthere]
  rfl

theorem exists_signInput (hindex : index < d.inputs.length) : ∃ signature,
    key.signInput d index code = .ok signature ∧
      ∀ w : Mailbox, ((Signer.held key).sign d.settled index code).Gives w signature w := by
  have hdigest : d.digest index code sighashAll =
      .ok (doubleSha256 (d.signedBytes index code sighashAll)) := if_pos hindex
  have hlocal : key.signInput d index code = .ok _ := Draft.signInput_of_digest key hdigest
  refine ⟨_, hlocal, ?_⟩
  intro w
  exact gives_lift.2 ⟨(key.signInput_eq_of_bare d.bare_settled index code).trans hlocal, rfl⟩

theorem returned_roundTrip (hindex : index < d.inputs.length) (hword : index < UInt32.size)
    (haddressable : (SignRequest.encode ⟨d, index, code⟩).length < UInt64.size)
    (hquiet : c.Quiet) :
    ((c.ask (SignRequest.encode ⟨d, index, code⟩)).roundTrip
      (Mailbox.link.answerSignRequest (.held key) approve)).traffic.returned ≠ [] := by
  obtain ⟨signature, -, hsign⟩ := exists_signInput hindex
  have hdecode := SignRequest.decode_encode hindex hword haddressable
  rw [traffic_roundTrip (traffic_ask hquiet _) hdecode hsign]
  exact List.cons_ne_nil _ _

/-! ### What the requester gets -/

variable {peer : PublicKey}

/-- The request is sent and waited for. -/
theorem resultIn_sign (peer : PublicKey) (wait : Connection → Connection) (c : Connection)
    (d : Draft) (index : Nat) (code : Script) :
    ((Signer.remote peer (link wait)).sign d index code).resultIn c =
      Exchange.resultIn (do
        let signature ← (link wait).expect .signature
        if signature.isEmpty then throw (.signing (.declined index))
        unless ← peer.verifyInput d index code signature do throw (.signing (.invalid index))
        return signature) (c.ask (SignRequest.encode ⟨d, index, code⟩)) := by
  have hsend : ((link wait).send .signRequest (SignRequest.encode ⟨d, index, code⟩)).Gives c ()
      (c.ask (SignRequest.encode ⟨d, index, code⟩)) := rfl
  rw [Signer.sign, resultIn_bind_of_gives hsend]

theorem sign_of_silent
    (h : (wait (c.ask (SignRequest.encode ⟨d, index, code⟩))).traffic.returned = []) :
    ((Signer.remote peer (link wait)).sign d index code).resultIn c =
      (.error (.collaborator (.silent "signature")),
        (wait (c.ask (SignRequest.encode ⟨d, index, code⟩))).received) := by
  rw [resultIn_sign, resultIn_bind, resultIn_expect_link, h]

theorem sign_of_declined
    (h : (wait (c.ask (SignRequest.encode ⟨d, index, code⟩))).traffic.returned = [[]]) :
    ((Signer.remote peer (link wait)).sign d index code).resultIn c =
      (.error (.signing (.declined index)),
        (wait (c.ask (SignRequest.encode ⟨d, index, code⟩))).received) := by
  rw [resultIn_sign, resultIn_bind, resultIn_expect_link, h]
  rfl

theorem sign_of_valid {signature : Bytes}
    (h : (wait (c.ask (SignRequest.encode ⟨d, index, code⟩))).traffic.returned = [signature])
    (hvalid : peer.verifyInput d index code signature = .ok true) :
    ((Signer.remote peer (link wait)).sign d index code).resultIn c =
      (.ok signature, (wait (c.ask (SignRequest.encode ⟨d, index, code⟩))).received) := by
  have hreply : ((link wait).expect .signature).Gives
      (c.ask (SignRequest.encode ⟨d, index, code⟩)) signature
      (wait (c.ask (SignRequest.encode ⟨d, index, code⟩))).received := by
    rw [Gives, resultIn_expect_link, h]
  exact Signer.gives_sign_remote rfl hreply hvalid

/-- **A remote signature is the local one.** While the peer serves what arrives, a request comes to
the signature that the key makes of the requester's own draft, to a refusal, or to silence, and
nothing else. A reply can always arrive, it leaves nothing under way, and a message that is no
request is not answered. -/
theorem remote_agrees (hindex : index < d.inputs.length) (hword : index < UInt32.size)
    (haddressable : (SignRequest.encode ⟨d, index, code⟩).length < UInt64.size)
    (hreliable : (Signer.held key : Signer Mailbox).Reliable d index code) (hquiet : c.Quiet)
    (hwait : ∀ c, Runs (Mailbox.link.answerSignRequest (.held key) approve) c (wait c)) :
    ∃ signature, key.signInput d index code = .ok signature ∧
      (let asked := c.ask (SignRequest.encode ⟨d, index, code⟩)
      ((Signer.remote key.publicKey (link wait)).sign d index code).resultIn c =
        (if (wait asked).traffic.returned = [] then .error (.collaborator (.silent "signature"))
          else if approve ⟨d.settled, index, code⟩ then .ok signature
          else .error (.signing (.declined index)), (wait asked).received) ∧
      ((wait asked).traffic.returned ≠ [] → (wait asked).received.Quiet) ∧
      ∃ c', Runs (Mailbox.link.answerSignRequest (.held key) approve) asked c' ∧
        c'.traffic.returned ≠ []) ∧
      ∀ (m : Mailbox) (message : Bytes) (fault : Fault),
        (m.receive .signRequest).1 = some message → SignRequest.decode message = .error fault →
        (Mailbox.link.answerSignRequest (.held key) approve).resultIn m =
          (.error fault, (m.receive .signRequest).2) ∧
        (m.receive .signRequest).2.sent = m.sent := by
  obtain ⟨signature, hlocal, hsign⟩ := exists_signInput hindex
  have hheld : ((Signer.held key).sign d index code).Gives Mailbox.empty signature _ :=
    gives_lift.2 ⟨hlocal, rfl⟩
  have hvalid := Signer.verifyInput_of_sign hheld hreliable
  have hdecode := SignRequest.decode_encode hindex hword haddressable
  have hunderway := underway_run hdecode hsign (hwait (c.ask (SignRequest.encode ⟨d, index, code⟩)))
    (by rw [traffic_ask hquiet]; exact .asked)
  refine ⟨signature, hlocal, ⟨?_, ?_, ?_⟩, ?_⟩
  · by_cases hsilent : (wait (c.ask (SignRequest.encode ⟨d, index, code⟩))).traffic.returned = []
    · rw [if_pos hsilent, sign_of_silent hsilent]
    · rw [if_neg hsilent]
      have hreturned := congrArg Traffic.returned (hunderway.eq_returned hsilent)
      by_cases happrove : approve ⟨d.settled, index, code⟩
      · rw [if_pos happrove] at hreturned ⊢
        exact sign_of_valid hreturned hvalid
      · rw [if_neg happrove] at hreturned ⊢
        exact sign_of_declined hreturned
  · intro hreturned
    rw [Quiet, traffic_received, hunderway.eq_returned hreturned]
    rfl
  · exact ⟨_, runs_roundTrip _ _, returned_roundTrip hindex hword haddressable hquiet⟩
  · intro m message fault hmessage hfault
    exact ⟨Link.answerSignRequest_of_unread (Mailbox.gives_expect hmessage) hfault, rfl⟩

end

open Settlement in
/-- The key of the refund signs for a peer who waits for it, refuses, and is not heard by one who
does not wait. -/
theorem idle_remote :
    (((Signer.remote idleKey.publicKey (link (roundTrip
      (Mailbox.link.answerSignRequest (.held idleKey) fun _ => true)))).sign idleDraft 0
        idlePrize).resultIn ⟨.empty, .empty⟩).1 = .ok (idleSignature ++ [sighashAll]) ∧
    (((Signer.remote idleKey.publicKey (link (roundTrip
      (Mailbox.link.answerSignRequest (.held idleKey) fun _ => false)))).sign idleDraft 0
        idlePrize).resultIn ⟨.empty, .empty⟩).1 = .error (.signing (.declined 0)) ∧
    (((Signer.remote idleKey.publicKey (link id)).sign idleDraft 0
        idlePrize).resultIn ⟨.empty, .empty⟩).1 =
      .error (.collaborator (.silent "signature")) := by
  have hindex : 0 < idleDraft.inputs.length := by decide
  have hword : 0 < UInt32.size := by decide
  have haddressable :
      (SignRequest.encode ⟨idleDraft, 0, idlePrize⟩).length < UInt64.size := by
    decide +kernel
  have hquiet : Quiet ⟨.empty, .empty⟩ := rfl
  refine ⟨?_, ?_, ?_⟩
  · obtain ⟨signature, hlocal, ⟨hresult, -⟩, -⟩ := remote_agrees hindex hword haddressable
      (idle_reliable rfl) hquiet fun c => runs_roundTrip _ c
    rw [hresult, if_neg (returned_roundTrip hindex hword haddressable hquiet), if_pos rfl]
    exact hlocal.symm.trans idle_signInput
  · obtain ⟨signature, -, ⟨hresult, -⟩, -⟩ := remote_agrees hindex hword haddressable
      (idle_reliable rfl) hquiet fun c => runs_roundTrip _ c
    rw [hresult, if_neg (returned_roundTrip hindex hword haddressable hquiet)]
    rfl
  · have hwait (c : Connection) : Runs (Mailbox.link.answerSignRequest (.held idleKey)
        fun _ => true) c (id c) := .refl
    obtain ⟨signature, -, ⟨hresult, -⟩, -⟩ := remote_agrees hindex hword haddressable
      (idle_reliable rfl) hquiet hwait
    have hsilent : (id (ask (SignRequest.encode ⟨idleDraft, 0, idlePrize⟩)
        ⟨.empty, .empty⟩)).traffic.returned = [] := rfl
    rw [hresult, if_pos hsilent]

end Connection

end Wager
