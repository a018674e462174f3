import Dbgp.Proofs.Base64
import Dbgp.Proofs.DocumentReading
import Dbgp.Proofs.Forwarding
import Dbgp.Proofs.NextPacket

/-!
# Output of the debuggee from the engine to the caller

An engine passes output on as an element whose text is the Base64 of the octets, wrapped at any width
and with any white space (`Output.Spaced`). The white space survives the reading of the element, with
its line ends changed, and is dropped before the octets are read (`Output.parse_payload`). The octets
then wait in the mailbox of the session, and the bridge reports them as text.

Main statement: `Client.output_delivered`.
-/

namespace Dbgp

/-! ## The alphabet of Base64 and markup -/

namespace Text.Base64

/-- Only symbols and the padding are written by `encodeOctets`. -/
theorem eq_of_mem_encodeOctets {bs : List UInt8} {b : UInt8} (h : b ∈ encodeOctets bs) :
    b = pad ∨ ∃ v, b = symbol v := by
  fun_induction encodeOctets bs with
  | case1 => cases h
  | case2 a =>
    simp only [List.mem_cons, List.not_mem_nil, or_false] at h
    obtain h | h | h | h := h
    exacts [.inr ⟨_, h⟩, .inr ⟨_, h⟩, .inl h, .inl h]
  | case3 a b =>
    simp only [List.mem_cons, List.not_mem_nil, or_false] at h
    obtain h | h | h | h := h
    exacts [.inr ⟨_, h⟩, .inr ⟨_, h⟩, .inr ⟨_, h⟩, .inl h]
  | case4 a b c rest ih =>
    simp only [List.mem_cons] at h
    obtain h | h | h | h | h := h
    exacts [.inr ⟨_, h⟩, .inr ⟨_, h⟩, .inr ⟨_, h⟩, .inr ⟨_, h⟩, ih h]

/-- Neither of the brackets of a tag is a `symbol`. -/
theorem symbol_ne_bracket (v : Nat) :
    (symbol v).toNat ≠ '<'.toNat ∧ (symbol v).toNat ≠ '>'.toNat := by
  have hopen : '<'.toNat = 60 := rfl
  have hclose : '>'.toNat = 62 := rfl
  rw [symbol, hopen, hclose]
  split
  · rw [UInt8.toNat_ofNat_of_lt' (show _ < 2 ^ 8 by omega)]
    omega
  split
  · rw [UInt8.toNat_ofNat_of_lt' (show _ < 2 ^ 8 by omega)]
    omega
  split
  · rw [UInt8.toNat_ofNat_of_lt' (show _ < 2 ^ 8 by omega)]
    omega
  split <;> decide

/-- There is no bracket of a tag in what `Base64.encode` writes. -/
theorem bracket_not_mem_encode (bs : List UInt8) :
    '<' ∉ (encode bs).toList ∧ '>' ∉ (encode bs).toList := by
  have hne : ∀ b ∈ encodeOctets bs, b.toNat ≠ '<'.toNat ∧ b.toNat ≠ '>'.toNat := by
    intro b hb
    obtain rfl | ⟨v, rfl⟩ := eq_of_mem_encodeOctets hb
    · decide
    · exact symbol_ne_bracket v
  rw [encode, String.toList_ofList, List.mem_map, List.mem_map]
  constructor
  · rintro ⟨b, hb, hchar⟩
    exact (hne b hb).1 (by rw [← hchar, toNat_ofNat])
  · rintro ⟨b, hb, hchar⟩
    exact (hne b hb).2 (by rw [← hchar, toNat_ofNat])

/-- What `Base64.encode` writes may stand in a document. -/
theorem isXmlChar_of_mem_encode {bs : List UInt8} {c : Char} (h : c ∈ (encode bs).toList) :
    Xml.isXmlChar c = true := by
  rw [encode, String.toList_ofList, List.mem_map] at h
  obtain ⟨b, hb, rfl⟩ := h
  have hbounds := bounds_of_mem_encodeOctets hb
  simp only [Xml.isXmlChar, toNat_ofNat, Bool.and_eq_true, Bool.or_eq_true, decide_eq_true_eq]
  omega

/-- White space does not matter to `Base64.decode`. -/
theorem decode_congr {s s' : String} (h : compact s.toList = compact s'.toList) :
    decode s = decode s' := by
  rw [decode, h, decode]

end Text.Base64

/-! ## Text without references -/

namespace Xml

open Markup
open Text (compact)

/-- Characters of which none is reserved may be written as they are, by `Spelled`. -/
theorem spelled_self {reserved : Char → Bool} {cs : List Char} (h : ∀ c ∈ cs, reserved c = false) :
    Spelled reserved cs cs := by
  induction cs with
  | nil => exact .nil
  | cons c cs ih =>
    rw [List.forall_mem_cons] at h
    exact .plain h.1 (ih h.2)

/-- `lineEnds` turns line ends into other line ends, and so white space. -/
theorem compact_lineEnds (afterReference : Bool) (ps : List Piece) :
    compact (lineEnds afterReference ps) = compact (ps.map Piece.char) := by
  have hreturn : Text.isBlank '\r' = true := by decide
  have hnewline : Text.isBlank '\n' = true := by decide
  simp only [compact]
  -- The cases differ in which carriage returns vanish or become newlines, and both are blank.
  fun_induction lineEnds afterReference ps <;>
    simp_all [Piece.char, List.filter_cons]

/-- `textValue?` reads text in which nothing is marked up as it is, but for its white space. -/
theorem textValue?_of_plain {cs : List Char} (hamp : '&' ∉ cs) (hclose : '>' ∉ cs)
    (hxml : ∀ c ∈ cs, isXmlChar c = true) :
    ∃ text, textValue? cs = some text ∧ compact text.toList = compact cs := by
  have hspelled : Spelled (fun c => c = '&') cs cs :=
    spelled_self fun c hc => decide_eq_false fun h => hamp (h ▸ hc)
  obtain ⟨ps, hps, hchars, -⟩ := hspelled.exists_pieces (by decide) hxml le_rfl
  have hopen : ¬ occurs [']', ']', '>'] cs = true := by
    intro hocc
    exact hclose ((occurs_iff.mp hocc).subset (by simp))
  refine ⟨_, by rw [textValue?, if_neg hopen, hps, Option.map_some], ?_⟩
  rw [String.toList_ofList, compact_lineEnds, hchars]

end Xml

/-! ## The payload -/

namespace Output

/-- The payload by which an engine passes on output, with `w` between its tags. -/
def payload (kind : StreamKind) (w : String) : String :=
  "<stream type=\"" ++ Vocabulary.word kind ++ "\" encoding=\"base64\">" ++ w ++ "</stream>"

/-- What `Base64.encode` writes for some octets, with white space inserted anywhere. -/
def Spaced (d : List UInt8) (w : String) : Prop :=
  w.toList.filter (fun c => !Xml.isSpace c) = (Text.Base64.encode d).toList

variable {kind : StreamKind} {d : List UInt8} {w : String}

/-- What is `Spaced` is white space and Base64. -/
theorem Spaced.cases_of_mem (h : Spaced d w) {c : Char} (hc : c ∈ w.toList) :
    Xml.isSpace c = true ∨ c ∈ (Text.Base64.encode d).toList := by
  by_cases hspace : Xml.isSpace c = true
  · exact .inl hspace
  · refine .inr (h ▸ List.mem_filter.mpr ⟨hc, ?_⟩)
    simpa using hspace

/-- A character that is neither a space nor in the Base64 is not in a text that is `Spaced`. -/
theorem Spaced.not_mem (h : Spaced d w) {c : Char} (hspace : Xml.isSpace c = false)
    (hc : c ∉ (Text.Base64.encode d).toList) : c ∉ w.toList := by
  intro hmem
  obtain hspace' | hmem := h.cases_of_mem hmem
  · cases hspace.symm.trans hspace'
  · exact hc hmem

/-- What is `Spaced` may stand in a document. -/
theorem Spaced.isXmlChar (h : Spaced d w) : ∀ c ∈ w.toList, Xml.isXmlChar c = true := by
  intro c hc
  obtain hspace | hc := h.cases_of_mem hc
  · simp only [Xml.isSpace, Bool.or_eq_true, decide_eq_true_eq] at hspace
    obtain ((rfl | rfl) | rfl) | rfl := hspace <;> decide
  · exact Text.Base64.isXmlChar_of_mem_encode hc

/-- `Text.compact` leaves nothing but the Base64. -/
theorem Spaced.compact_eq (h : Spaced d w) :
    Text.compact w.toList = Text.compact (Text.Base64.encode d).toList := by
  have hblank : ∀ c, (!Text.isBlank c && !Xml.isSpace c) = !Text.isBlank c := by
    intro c
    cases hspace : Xml.isSpace c with
    | false => exact Bool.and_true _
    | true =>
      simp only [Xml.isSpace, Bool.or_eq_true, decide_eq_true_eq] at hspace
      obtain ((rfl | rfl) | rfl) | rfl := hspace <;> rfl
  rw [← h, Text.compact, Text.compact, List.filter_filter]
  simp only [hblank]

/-- The text between the tags is read, and `Base64.decode` gives the octets back. -/
theorem Spaced.reads (h : Spaced d w) (rest : List Char) : ∃ size text, size ≤ 1 ∧
    Xml.Markup.Reads (w.toList ++ '<' :: '/' :: rest) rest size text [] ∧
      Text.Base64.decode text = .ok d := by
  have hend := Xml.Markup.reads_end rest
  -- Without characters between the tags there is no text at all, not an empty one.
  by_cases hempty : w.toList = []
  · refine ⟨0, "", by omega, by rw [hempty]; exact hend, ?_⟩
    have hcompact : Text.compact "".toList = Text.compact (Text.Base64.encode d).toList := by
      rw [← h.compact_eq, hempty]
      rfl
    rw [Text.Base64.decode_congr hcompact, Text.Base64.decode_encode]
  · have hbrackets := Text.Base64.bracket_not_mem_encode d
    obtain ⟨text, htext, hcompact⟩ := Xml.textValue?_of_plain
      (h.not_mem rfl (Text.Base64.not_mem_encode (by decide) d)) (h.not_mem rfl hbrackets.2) h.isXmlChar
    refine ⟨1, text ++ "", by omega, hend.run hempty (h.not_mem rfl hbrackets.1) h.isXmlChar htext, ?_⟩
    rw [String.append_empty, Text.Base64.decode_congr (hcompact.trans h.compact_eq),
      Text.Base64.decode_encode]

/-- The name `stream` of the element. -/
def streamName : Xml.Name where
  text := "stream"
  starts := by decide
  holds := List.all_eq_true.mp rfl

/-- The attributes `type` and `encoding` of the element. -/
def streamAttributes (kind : StreamKind) : Xml.AttributeList where
  list :=
    [(⟨"type", by decide, List.all_eq_true.mp rfl⟩,
        ⟨Vocabulary.word kind, List.all_eq_true.mp (by cases kind <;> rfl)⟩),
      (⟨"encoding", by decide, List.all_eq_true.mp rfl⟩, ⟨"base64", List.all_eq_true.mp rfl⟩)]
  distinct := by simp
  undeclaring := by simp

/-- The characters of a `payload`: an element with its two tags. -/
theorem toList_payload (kind : StreamKind) (w : String) : (payload kind w).toList =
    '<' :: (streamName.text.toList ++ (Xml.writeAttributes (streamAttributes kind).list ++
      ([] ++ '>' :: (w.toList ++ '<' :: '/' :: (streamName.text.toList ++ ([] ++ ['>'])))))) := by
  unfold payload
  simp only [String.toList_append, List.append_assoc]
  cases kind <;> rfl

/-- `Packet.parse` reads the payload as output of its kind with exactly the octets that were
written. -/
theorem parse_payload (kind : StreamKind) (h : Spaced d w) :
    Packet.parse (payload kind w) = .ok (.output ⟨kind, d⟩) := by
  obtain ⟨size, text, hsize, hreads, hdecode⟩ := h.reads (streamName.text.toList ++ ([] ++ ['>']))
  have hreads := Xml.Markup.readsElement_tags streamName
    (Xml.attributesWritten_writeAttributes (streamAttributes kind).list)
    Xml.blank_nil Xml.blank_nil hreads
  have hroot : Xml.Element.parse (payload kind w) = .ok
      ⟨"stream", [("type", Vocabulary.word kind), ("encoding", "base64")], [], text⟩ := by
    rw [← String.ofList_toList (s := payload kind w), toList_payload]
    refine Xml.parse_of_readsElement streamName hreads ?_
    simp only [List.length_append, List.length_cons]
    omega
  have hkind : readWord StreamKind (Vocabulary.word kind) = .ok kind := by cases kind <;> rfl
  have hcontent : Xml.Element.content
      ⟨"stream", [("type", Vocabulary.word kind), ("encoding", "base64")], [], text⟩ = .ok d := by
    rw [Xml.Element.content]
    simp [Xml.Element.attr?, hdecode]
  rw [Packet.parse, hroot]
  show (Packet.output <$> Output.ofElement _) = _
  rw [Output.ofElement]
  simp [Xml.Element.attr, Xml.Element.attr?, hkind, hcontent, bind, Except.bind, pure, Except.pure,
    Functor.map, Except.map]

end Output

/-- A payload that `Packet.parse` reads as output is nothing else. -/
theorem Packet.kinds_of_output {payload : String} {o : Output} (h : parse payload = .ok (.output o)) :
    output? payload = some o ∧ notify? payload = none ∧ response? payload = none := by
  unfold output? notify? response?
  rw [h]
  exact ⟨rfl, rfl, rfl⟩

/-! ## The notice -/

namespace Bridge

variable {b b' : Bridge} {f : Forwarder} {o : Output} {rest : List Output}

/-- A `Forwarder` has taken a piece of output and said so, and nothing else. -/
structure Reported (n : Nat) (o : Output) (rest : List Output) (b b' : Bridge) : Prop where
  outputs_eq : b'.client.outputs n = rest
  outbox_eq : ∃ x, b'.outbox = b.outbox ++ [.notice x] ∧
    x.TellsOutput n o.kind (Text.Utf8.lossy o.content)

/-- Where there is output, a forwarder that looks for it takes the first piece and says so
(`Rpc.printed`). -/
theorem Forwarder.act_of_outputs {g : ForwardGround} (hitems : g.session.outputs.items = o :: rest)
    (hstep : f.step = .pollOutput ∨ f.step = .drainOutput) : ∃ step, f.act g =
      some (step, { g with session.outputs.items := rest }.say (Rpc.printed g.session.id o)) := by
  have hlook : g.session.outputs.look = (.item o, { g.session.outputs with items := rest }) := by
    rw [Mailbox.look, hitems]
  obtain hstep | hstep := hstep
  · refine ⟨.pollNotify, ?_⟩
    rw [Forwarder.act, hstep]
    simp only [pollOutput, hlook]
  · refine ⟨.drainOutput, ?_⟩
    rw [Forwarder.act, hstep]
    simp only [pollOutput, hlook]

/-- A piece of output is left alone or `Reported`. -/
theorem reported_forward (f : Forwarder) (h : b.client.outputs f.session = o :: rest) :
    (b.step (.forward f)).client.outputs f.session = o :: rest ∨
      Reported f.session o rest b (b.step (.forward f)) := by
  obtain hsame | ⟨s, step, g, -, hs, haction, hb'⟩ := forwarded b f
  · exact .inl (by rw [hsame, h])
  · have hid := Client.id_of_session? hs
    have hs' : (b.step (.forward f)).client.session? f.session = some g.session := by
      rw [hb', Client.session?_putSession hs g.session (haction.id_eq.trans hid), if_pos rfl]
    rw [Client.outputs_of_session? hs] at h
    rw [Client.outputs_of_session? hs']
    cases haction with
    | @printed o' rest' step' _ hitems =>
      cases h.symm.trans hitems
      refine .inr ⟨Client.outputs_of_session? hs', Rpc.printed f.session o, ?_,
        Rpc.tellsOutput_printed f.session o⟩
      rw [hb', ← hid]
      rfl
    | notified | passed | slept | closed | woken | drainedNotifies | drainedOutputs | forgot
    | announced => exact .inl h

/-- A forwarder at `pollOutput` or `drainOutput` takes the first of the `outputs`. -/
theorem outputs_forward (hf : f ∈ b.forwarders) (hstep : f.step = .pollOutput ∨ f.step = .drainOutput)
    (h : b.client.outputs f.session = o :: rest) :
    (b.step (.forward f)).client.outputs f.session = rest := by
  cases hs : b.client.session? f.session with
  | none =>
    rw [Client.outputs, hs] at h
    cases h
  | some s =>
    rw [Client.outputs_of_session? hs] at h
    obtain ⟨step, hact⟩ := Forwarder.act_of_outputs (g := ⟨s, b.registry, b.outbox⟩) h hstep
    have hclient : (b.step (.forward f)).client =
        b.client.putSession { s with outputs.items := rest } := by
      rw [Bridge.step, if_pos hf, actForwarder, hs]
      simp only [hact]
      rfl
    have hid : s.id = f.session := Client.id_of_session? hs
    rw [hclient, Client.outputs, Client.session?_putSession hs { s with outputs.items := rest } hid,
      if_pos rfl]
    rfl

end Bridge

/-! ## Delivery -/

namespace Client

/-- The output that a session puts into its mailbox in a run, by `gains`. -/
def queued (n : Nat) (c : Client) (ms : List Move) : List Output :=
  c.trace (gains n fun s => s.outputs.items) ms

variable {c : Client} {n : Nat} {s : Session} {ms : List Move} {kind : StreamKind} {d : List UInt8}
  {w : String}

/-- `filterMap` by the first components alone. -/
theorem filterMap_fst (kind : String → Option α) (l : List (String × List String)) :
    l.filterMap (fun t => kind t.1) = (l.map Prod.fst).filterMap kind := by
  rw [List.filterMap_map]
  rfl

/-- What is `queued` is the output among the payloads that are taken. -/
theorem queued_eq (n : Nat) (c : Client) (ms : List Move) :
    c.queued n ms = ((c.trace (takings n) ms).map Prod.fst).filterMap Packet.output? := by
  rw [queued, trace_gains_outputs, filterMap_fst]

/-- Output of the debuggee reaches the caller octet for octet. A session that is about to read a
packet gets the frame of one with output, wrapped in any way, in any pieces, among whatever else
happens. It puts nothing else into the mailbox before it; the packet goes there once and nowhere else,
with the next action of the receiver once the frame is there; and what a bridge reports of it are its
kind and its octets as text. -/
theorem output_delivered (kind : StreamKind) {coming : List Arrival} {more : List UInt8} {now : Nat}
    (hw : Output.Spaced d w) (hs : c.session? n = some s)
    (hreceiver : s.receiver = .reading (.start now))
    (hfits : Frame.Fits s.config.maxPacketSize.toNat (Output.payload kind w))
    (hoctets : ((arrivals s.connection ms ++ coming).foldl Inbound.receive s.inbound).pending =
      Frame.encode (Output.payload kind w) ++ more)
    (hprompt : ∀ limit, s.config.readTimeout = some limit →
      c.Prompt n s.connection (Frame.encode (Output.payload kind w)).length (c.now + limit.toNat)
        s.inbound ms) :
    (c.queued n ms = [] ∧
        ((Frame.encode (Output.payload kind w)).length ≤
            ((arrivals s.connection ms).foldl Inbound.receive s.inbound).pending.length →
          ∀ s', (c.run ms).session? n = some s' → s'.stop = false →
            (c.run ms).isDeserted s' = false →
            c.queued n (ms ++ [.receiver n]) = [⟨kind, d⟩]) ∨
      ∃ later, (c.trace (takings n) ms).map Prod.fst = Output.payload kind w :: later ∧
        c.queued n ms = ⟨kind, d⟩ :: later.filterMap Packet.output? ∧
        c.trace (gains n fun s => s.notifies.items) ms = later.filterMap Packet.notify? ∧
        (c.history ms).filterMap (response? n) = later.filterMap Packet.response? ∧
        (more = [] → later = [])) ∧
    (∀ (b : Bridge) (f : Bridge.Forwarder) (rest : List Output),
      b.client.outputs f.session = ⟨kind, d⟩ :: rest →
      ((b.step (.forward f)).client.outputs f.session = ⟨kind, d⟩ :: rest ∨
        Bridge.Reported f.session ⟨kind, d⟩ rest b (b.step (.forward f))) ∧
      (f ∈ b.forwarders → f.step = .pollOutput ∨ f.step = .drainOutput →
        (b.step (.forward f)).client.outputs f.session = rest)) ∧
    ∀ text, Text.Utf8.encode text = d → Text.Utf8.lossy d = text := by
  obtain ⟨houtput, hnotify, hresponse⟩ := Packet.kinds_of_output (Output.parse_payload kind hw)
  have hamid := Session.amid_of_start hreceiver (Output.payload kind w) c.now
  refine ⟨?_, fun b f rest h => ⟨Bridge.reported_forward f h, fun hf hstep =>
    Bridge.outputs_forward hf hstep h⟩, fun text htext => htext ▸ Text.Utf8.lossy_encode text⟩
  have hprompt' : ∀ limit, s.limits.timeout = some limit → c.Prompt n s.connection
      (Frame.encode (Output.payload kind w)).length (c.now + limit) s.inbound ms := by
    intro limit hlimit
    obtain ⟨limit, hsome, rfl⟩ := Option.map_eq_some_iff.mp hlimit
    exact hprompt limit hsome
  cases next_taken hs hamid hfits (Nat.le_refl _) hoctets hprompt' with
  | @pending s' htrace hs' hconfig hnow hamid' =>
    refine .inl ⟨by rw [queued_eq, htrace]; rfl, fun hall s'' hs'' hstop hdeserted => ?_⟩
    cases hs'.symm.trans hs''
    rw [List.foldl_append] at hoctets
    have htaking := hamid'.taking? (by rwa [Session.limits, hconfig]) hoctets hnow hall hstop
    rw [queued_eq, trace_concat, htrace, takings_receiver hs' hdeserted, htaking]
    simp [houtput]
  | @stopped s' htrace hs' hstop =>
    -- Once it was told to stop, the session reads nothing more, and stays so.
    refine .inl ⟨by rw [queued_eq, htrace]; rfl, fun _ s'' hs'' hstop' => ?_⟩
    cases hs'.symm.trans hs''
    cases hstop.symm.trans hstop'
  | @taken loggers later htrace hlater =>
    refine .inr ⟨later.map Prod.fst, by rw [htrace]; rfl, ?_, ?_, ?_, fun hmore => by
      rw [hlater hmore]; rfl⟩
    · rw [queued_eq, htrace, List.map_cons, List.filterMap_cons_some houtput]
    · rw [trace_gains_notifies, filterMap_fst, htrace, List.map_cons,
        List.filterMap_cons_none hnotify]
    · rw [responses_history, filterMap_fst, htrace, List.map_cons, List.filterMap_cons_none hresponse]

/-- The first two octets of a character of three, wrapped after the first symbol. -/
def wrapped : String := "4\r\no \tI\n="

/-- A session whose `readTimeout` is a tenth of a second. -/
def limited : Client := run {} [.attach { readTimeout := some 100 }]

/-- The packet comes in two pieces, and the receiver polls by `receiver` in between. -/
def twoPieces : List Move :=
  let frame := Frame.encode (Output.payload .stderr wrapped)
  [.arrive 1 (.bytes (frame.take 20)), .receiver 1, .pass 50, .arrive 1 (.bytes (frame.drop 20))]

/-- The receiver looks before its limit in the run `twoPieces`. -/
theorem prompt_twoPieces {limit : UInt64} {size : Nat} {i : Inbound} (h : some 100 = some limit) :
    limited.Prompt 1 1 size (limited.now + limit.toNat) i twoPieces := by
  cases h
  intro ms₁ ms₂ hms _
  rcases ms₁ with _ | ⟨m₁, _ | ⟨m₂, _ | ⟨m₃, _ | ⟨m₄, ms₁⟩⟩⟩⟩
  · cases hms
  · cases hms
    decide +kernel
  · cases hms
  · cases hms
  · simp [twoPieces] at hms

/-- A bridge whose forwarder is at `pollOutput` when the packet has just been read. -/
def looking : Bridge where
  address := ""
  client := limited.run (twoPieces ++ [.receiver 1])
  forwarders := [⟨1, .pollOutput⟩]

/-- Half a character, `wrapped`, comes in two pieces. It is put into the mailbox as it is, and
reported by the next forwarder that looks. -/
theorem output_delivered_wrapped :
    Output.Spaced [0xE2, 0x82] wrapped ∧ limited.queued 1 twoPieces = [] ∧
      limited.queued 1 (twoPieces ++ [.receiver 1]) = [⟨.stderr, [0xE2, 0x82]⟩] ∧
      Bridge.Reported 1 ⟨.stderr, [0xE2, 0x82]⟩ [] looking
        (looking.step (.forward ⟨1, .pollOutput⟩)) := by
  have hw : Output.Spaced [0xE2, 0x82] wrapped := by
    unfold Output.Spaced
    decide +kernel
  have hqueued : limited.queued 1 twoPieces = [] := by decide +kernel
  have hopen : ((limited.run twoPieces).session? 1).map
      (fun s => (s.stop, (limited.run twoPieces).isDeserted s)) = some (false, false) := by
    decide +kernel
  have hwaits : looking.client.outputs 1 = [⟨.stderr, [0xE2, 0x82]⟩] := by decide +kernel
  obtain ⟨s, hs, hflags⟩ := Option.map_eq_some_iff.mp hopen
  obtain ⟨hstop, hdeserted⟩ := Prod.mk.inj hflags
  obtain ⟨hdelivered, hbridge, -⟩ := output_delivered (c := limited) (n := 1) .stderr hw rfl rfl
    ⟨by decide +kernel, by decide +kernel⟩
    (show ((arrivals 1 twoPieces ++ []).foldl Inbound.receive {}).pending = _ ++ [] by decide +kernel)
    fun limit hlimit => prompt_twoPieces hlimit
  obtain ⟨hreported, hgone⟩ := hbridge looking ⟨1, .pollOutput⟩ [] hwaits
  have hgone := hgone (List.mem_singleton.mpr rfl) (.inl rfl)
  obtain ⟨-, hnext⟩ | ⟨later, -, hcons, -⟩ := hdelivered
  · refine ⟨hw, hqueued, hnext (by decide +kernel) s hs hstop hdeserted, hreported.resolve_left ?_⟩
    rw [hgone]
    simp
  · rw [hqueued] at hcons
    cases hcons

end Client

end Dbgp
