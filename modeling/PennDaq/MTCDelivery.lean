import PennDaq.MTCLink

/-! Which cuts of a packet stream `MTCLink::RecvCallback` survives. A callback that
begins a packet with one or two bytes of it believes a shortened length; unless
the length fits into those bytes, the queue never gets the packets. -/
namespace PennDaq.MTC
open Lib.Buffer
open Lib.Framing
open Lib.Loop

theorem wellFormedFull {packets : List Bytes} (wf : ∀ p ∈ packets, WellFormed p) :
    ∀ p ∈ packets, p ≠ [] := by
  intro p mem none
  have := (wf p mem).header
  simp [none] at this

theorem headWhole {packet : Bytes} (wf : WellFormed packet) (more : Bytes) :
    le32 (packet ++ more) = packet.length := by
  rw [le32Append more wf.header, wf.length]

theorem headPart {packet part : Bytes} (wf : WellFormed packet) (front : part <+: packet) :
    le32 part = if part.length < 4 then packet.length % 256^part.length else packet.length := by
  have same := List.prefix_iff_eq_take.mp front
  by_cases short : part.length < 4
  · rw [if_pos short]
    calc le32 part = le32 (packet.take part.length) := congrArg le32 same
      _ = le32 packet % 256^part.length := le32Take packet short
      _ = packet.length % 256^part.length := by rw [wf.length]
  · rw [if_neg short, ← wf.length]
    obtain ⟨rest, rfl⟩ := front
    exact (le32Append rest (by omega)).symm

theorem headKept {packet part : Bytes} (wf : WellFormed packet) (front : part <+: packet)
    (begun : part ≠ []) : le32 part = packet.length ↔ CutKeepsLength packet part.length := by
  have some := List.length_pos_of_ne_nil begun
  have header := wf.header
  have fits := wf.fits
  simp only [sizeofSBCPacket, kSBCMaxMessageSizeBytes, kSBCMaxPayloadSizeBytes] at fits
  rw [headPart wf front, CutKeepsLength]
  split
  · obtain one | two | three : part.length = 1 ∨ part.length = 2 ∨ part.length = 3 := by omega
    · rw [one]; omega
    · rw [two]; omega
    · rw [three]; omega
  · omega

theorem headLost {packet part : Bytes} (wf : WellFormed packet) (front : part <+: packet)
    (begun : part ≠ []) (lost : ¬ CutKeepsLength packet part.length) :
    le32 part + 256 ≤ packet.length ∧ le32 part ≤ sbcPacketSize := by
  have some := List.length_pos_of_ne_nil begun
  have header := wf.header
  have fits := wf.fits
  simp only [sizeofSBCPacket, sbcPacketSize, kSBCMaxMessageSizeBytes, kSBCMaxPayloadSizeBytes] at *
  have wrong : le32 part ≠ packet.length := fun same => lost ((headKept wf front begun).mp same)
  rw [headPart wf front] at *
  split at wrong
  · rename_i short
    rw [if_pos short]
    obtain one | two | three : part.length = 1 ∨ part.length = 2 ∨ part.length = 3 := by omega
    · rw [one] at wrong ⊢; omega
    · rw [two] at wrong ⊢; omega
    · rw [three] at wrong ⊢; omega
  · contradiction

theorem callbackNothing {link out : MTCLink} : RecvCallback link [] out ↔ out = link := by
  rw [RecvCallback, endsStop (turnNothing link)]
  simp

theorem callbackWhole {link : MTCLink} {packet : Bytes} (f : Fresh link) (wf : WellFormed packet)
    (fits : packet.length ≤ sbcPacketSize) (more : Bytes) :
    ∃ next, Fresh next ∧ next.fRecvQueue = link.fRecvQueue ++ [record packet] ∧
      ∀ out, RecvCallback link (packet ++ more) out ↔ RecvCallback next more out := by
  have head := headWhole wf more
  have full : packet ++ more ≠ [] := by
    have := wf.header
    intro none
    simp [List.append_eq_nil_iff.mp none] at this
  obtain ⟨next, step, fresh, queue⟩ := turnWhole f full (by rw [head]; exact fits)
    (by rw [head, List.length_append]; omega)
  rw [head, List.take_left] at queue
  rw [head, List.drop_left] at step
  exact ⟨next, fresh, queue, fun out => endsAgain step (.ok out)⟩

theorem callbackPackets (packets : List Bytes) (wf : ∀ p ∈ packets, WellFormed p)
    (fits : ∀ p ∈ packets, p.length ≤ sbcPacketSize) {link : MTCLink} (f : Fresh link)
    (more : Bytes) :
    ∃ next, Fresh next ∧ next.fRecvQueue = link.fRecvQueue ++ packets.map record ∧
      ∀ out, RecvCallback link (packets.flatten ++ more) out ↔ RecvCallback next more out := by
  induction packets generalizing link with
  | nil => exact ⟨link, f, by simp, fun out => by simp⟩
  | cons p rest ih =>
    obtain ⟨mid, fresh, queue, same⟩ :=
      callbackWhole f (wf p (by simp)) (fits p (by simp)) (rest.flatten ++ more)
    obtain ⟨next, fresh', queue', same'⟩ := ih (fun q mem => wf q (List.mem_cons_of_mem _ mem))
      (fun q mem => fits q (List.mem_cons_of_mem _ mem)) fresh
    refine ⟨next, fresh', by simp [queue', queue], fun out => ?_⟩
    rw [List.flatten_cons, List.append_assoc, same, same']

theorem callbackPart {link : MTCLink} {packet part : Bytes} (f : Fresh link) (wf : WellFormed packet)
    (fits : packet.length ≤ sbcPacketSize) (front : part <+: packet)
    (short : part.length < packet.length) (kept : CutKeepsLength packet part.length) :
    ∃ out, RecvCallback link part out ∧ Holds out part packet.length ∧
      out.fRecvQueue = link.fRecvQueue := by
  by_cases begun : part = []
  · subst begun
    exact ⟨link, callbackNothing.mpr rfl, freshHolds f _, rfl⟩
  · have head := (headKept wf front begun).mpr kept
    obtain ⟨out, step, held, queue⟩ := turnStart f begun (by rw [head]; exact fits) (by rw [head]; exact short)
    rw [head] at held
    exact ⟨out, (endsStop step _).mpr rfl, held, queue⟩

def Expects (part : Bytes) (packets : List Bytes) (want : Nat) : Prop :=
  part ≠ [] → ∃ p later, packets = p::later ∧ want = p.length

theorem callbackShort {link : MTCLink} {part input : Bytes} {want : Nat} (h : Holds link part want) (begun : part ≠ [])
    (size : want ≤ sbcPacketSize) (short : part.length + input.length < want) :
    ∃ out, RecvCallback link input out ∧ Holds out (part ++ input) want ∧ out.fRecvQueue = link.fRecvQueue := by
  by_cases nothing : input = []
  · subst nothing
    exact ⟨link, callbackNothing.mpr rfl, by simpa using h, rfl⟩
  · obtain ⟨out, step, held, queue⟩ := turnMore h begun nothing size short
    exact ⟨out, (endsStop step _).mpr rfl, held, queue⟩

theorem callbackRest {link : MTCLink} {part input got p : Bytes} {packets : List Bytes} (h : Holds link part p.length)
    (begun : part ≠ []) (wf : ∀ q ∈ packets, WellFormed q) (fits : ∀ q ∈ p::packets, q.length ≤ sbcPacketSize)
    (bytes : part ++ input = p ++ (packets.flatten ++ got)) :
    ∃ next, Fresh next ∧ next.fRecvQueue = link.fRecvQueue ++ (p::packets).map record ∧
      ∀ out, RecvCallback link input out ↔ RecvCallback next got out := by
  have short := h.short begun
  have enough : p.length ≤ part.length + input.length := by
    have lengths := congrArg List.length bytes
    simp only [List.length_append] at lengths
    omega
  have nothing : input ≠ [] := by
    intro none
    simp [none] at enough
    omega
  obtain ⟨mid, step, fresh, queue⟩ := turnRest h begun nothing (fits p (.head _)) enough
  have packet : (part ++ input).take p.length = p := by rw [bytes, List.take_left]
  have rest : input.drop (p.length - part.length) = packets.flatten ++ got := by
    have dropped := congrArg (List.drop p.length) bytes
    rw [List.drop_left, List.drop_append, List.drop_eq_nil_of_le (by omega)] at dropped
    exact dropped
  rw [rest] at step
  rw [packet] at queue
  obtain ⟨next, fresh', queue', same'⟩ := callbackPackets packets wf (fun q mem => fits q (.tail _ mem)) fresh got
  refine ⟨next, fresh', by simp [queue', queue], fun out => ?_⟩
  rw [← same']
  exact endsAgain step (.ok out)

/- An input that brings the stream behind the packets `done` and to `got` of the
next one: either it only adds to the part already held, or the callback comes to
a fresh link with `got` as its input. -/
theorem callbackCut {link : MTCLink} {part input got : Bytes} {packets done later : List Bytes}
    {want : Nat} (h : Holds link part want) (expects : Expects part packets want)
    (wf : ∀ p ∈ packets, WellFormed p) (fits : ∀ p ∈ packets, p.length ≤ sbcPacketSize)
    (cut : packets = done ++ later) (bytes : part ++ input = done.flatten ++ got)
    (stop : later = [] ∧ got = [] ∨ ∃ p rest, later = p::rest ∧ got.length < p.length) :
    (part ≠ [] ∧ done = [] ∧ ∃ out, RecvCallback link input out ∧ Holds out got want ∧
        out.fRecvQueue = link.fRecvQueue) ∨
    ∃ next, Fresh next ∧ next.fRecvQueue = link.fRecvQueue ++ done.map record ∧
      ∀ out, RecvCallback link input out ↔ RecvCallback next got out := by
  by_cases begun : part = []
  · subst begun
    right
    rw [List.nil_append] at bytes
    rw [bytes]
    exact callbackPackets _ (fun p mem => wf p (cut ▸ List.mem_append_left _ mem))
      (fun p mem => fits p (cut ▸ List.mem_append_left _ mem)) (holdsFresh h) got
  obtain ⟨p, others, same, rfl⟩ := expects begun
  have size := fits p (by simp [same])
  cases done with
  | nil =>
    left
    refine ⟨begun, rfl, ?_⟩
    have head : later = p::others := by rw [← same, cut, List.nil_append]
    have short : got.length < p.length := by
      rcases stop with ⟨none, -⟩ | ⟨q, rest, first, shorter⟩
      · simp [none] at head
      · rw [head] at first
        obtain ⟨rfl, -⟩ := List.cons.inj first
        exact shorter
    have whole : part ++ input = got := by simpa using bytes
    subst whole
    rw [List.length_append] at short
    exact callbackShort h begun size short
  | cons q middle =>
    right
    have first : q = p ∧ middle ++ later = others := by simpa [cut] using same
    obtain ⟨rfl, rfl⟩ := first
    rw [List.flatten_cons, List.append_assoc] at bytes
    exact callbackRest h begun (fun r mem => wf r (by rw [cut]; simp [mem]))
      (fun r mem => fits r (by rw [cut]; exact List.mem_append_left _ mem)) bytes

theorem cutsStart {part : Bytes} {packets : List Bytes} (inputs : List Bytes)
    (cuts : CutsKeepLength part packets inputs) {p later} (same : packets = p::later)
    (short : part.length < p.length) : CutKeepsLength p part.length :=
  cuts [] inputs [] p later part rfl same (by simp) short

theorem cutsNext {part input got : Bytes} {packets done later inputs : List Bytes}
    (cut : packets = done ++ later) (bytes : part ++ input = done.flatten ++ got)
    (cuts : CutsKeepLength part packets (input::inputs)) : CutsKeepLength got later inputs := by
  rintro before after done' p rest got' rfl rfl same short
  refine cuts (input::before) after (done ++ done') p rest got' rfl (by simp [cut]) ?_ short
  rw [List.flatten_cons, ← List.append_assoc, bytes, List.append_assoc, same]
  simp

theorem cutsBehind {done done' later rest : List Bytes} {p got got' : Bytes} (more : Bytes)
    (cut : done ++ later = done' ++ p::rest)
    (same : done.flatten ++ (got ++ more) = done'.flatten ++ got') (short : got'.length < p.length) :
    ∃ between, done' = done ++ between := by
  induction done generalizing done' with
  | nil => exact ⟨done', rfl⟩
  | cons q done ih =>
    cases done' with
    | nil =>
      obtain ⟨rfl, -⟩ : q = p ∧ _ := by simpa using cut
      have lengths := congrArg List.length same
      simp only [List.flatten_cons, List.flatten_nil, List.length_append, List.length_nil] at lengths
      omega
    | cons q' done' =>
      obtain ⟨rfl, tails⟩ : q = q' ∧ done ++ later = done' ++ p::rest := by simpa using cut
      obtain ⟨between, rfl⟩ := ih tails (by simpa using same)
      exact ⟨between, rfl⟩

theorem cutsCons {part input got : Bytes} {packets done later inputs : List Bytes}
    (cut : packets = done ++ later) (bytes : part ++ input = done.flatten ++ got)
    (start : ∀ p rest, packets = p::rest → part.length < p.length → CutKeepsLength p part.length)
    (begun : part ≠ [] → ∃ p rest, packets = p::rest ∧ part.length < p.length)
    (cuts : CutsKeepLength got later inputs) : CutsKeepLength part packets (input::inputs) := by
  rintro before after done' p rest got' split here same short
  cases before with
  | nil =>
    rw [List.flatten_nil, List.append_nil] at same
    cases done' with
    | nil =>
      have whole : part = got' := by simpa using same
      subst whole
      exact start p rest here short
    | cons q done' =>
      by_cases none : part = []
      · subst none
        have nothing : got' = [] := (List.append_eq_nil_iff.mp same.symm).2
        subst nothing
        exact ⟨fun h => by simp at h, fun h => by simp at h⟩
      · obtain ⟨q', rest', first, shorter⟩ := begun none
        rw [here] at first
        obtain ⟨rfl, -⟩ := List.cons.inj first
        have lengths := congrArg List.length same
        simp only [List.flatten_cons, List.length_append] at lengths
        omega
  | cons i before =>
    obtain ⟨rfl, rest'⟩ : input = i ∧ inputs = before ++ after := by simpa using split
    rw [List.flatten_cons, ← List.append_assoc, bytes, List.append_assoc] at same
    rw [cut] at here
    obtain ⟨between, rfl⟩ := cutsBehind before.flatten here same short
    refine cuts before after between p rest got' rest' (by simpa using here) ?_ short
    simpa using same

theorem cutsSmall {packets : List Bytes} (small : ∀ p ∈ packets, p.length < 256) (part : Bytes)
    (inputs : List Bytes) : CutsKeepLength part packets inputs := by
  rintro before after done p later got - rfl - -
  have := small p (by simp)
  exact ⟨fun _ => this, fun _ => by omega⟩

theorem cutKeepsMore {packet : Bytes} {got more : Nat} (some : 0 < got)
    (kept : CutKeepsLength packet got) : CutKeepsLength packet (got + more) := by
  obtain ⟨one, two⟩ := kept
  refine ⟨fun h => one (by omega), fun h => ?_⟩
  by_cases begun : got = 1
  · have := one begun; omega
  · exact two (by omega)

structure Reached (link out : MTCLink) (packets done later : List Bytes) (got : Bytes) (want : Nat) :
    Prop where
  cut : packets = done ++ later
  stop : later = [] ∧ got = [] ∨ ∃ p rest, later = p::rest ∧ got.length < p.length
  holds : Holds out got want
  expects : Expects got later want
  queue : out.fRecvQueue = link.fRecvQueue ++ done.map record

theorem callbackReaches {link : MTCLink} {part input got : Bytes} {packets done later : List Bytes}
    {want : Nat} (h : Holds link part want) (expects : Expects part packets want)
    (wf : ∀ p ∈ packets, WellFormed p) (fits : ∀ p ∈ packets, p.length ≤ sbcPacketSize)
    (cut : packets = done ++ later) (bytes : part ++ input = done.flatten ++ got)
    (front : got <+: later.flatten)
    (stop : later = [] ∧ got = [] ∨ ∃ p rest, later = p::rest ∧ got.length < p.length)
    (kept : ∀ p rest, later = p::rest → got.length < p.length → CutKeepsLength p got.length) :
    ∃ mid want', RecvCallback link input mid ∧ Reached link mid packets done later got want' := by
  rcases callbackCut h expects wf fits cut bytes stop with
    ⟨begun, rfl, mid, received, held, queue⟩ | ⟨next, fresh, queue, same⟩
  · obtain ⟨p, others, head, rfl⟩ := expects begun
    have first : later = p::others := by rw [← head, cut, List.nil_append]
    exact ⟨mid, p.length, received, cut, stop, held, fun _ => ⟨p,others,first,rfl⟩, by simp [queue]⟩
  · rcases stop with ⟨none, rfl⟩ | ⟨p, others, rfl, short⟩
    · exact ⟨next, 0, (same next).mpr (callbackNothing.mpr rfl), cut, .inl ⟨none,rfl⟩,
        freshHolds fresh 0, fun no => absurd rfl no, queue⟩
    · have inside : p ∈ packets := by simp [cut]
      have start : got <+: p := by
        rw [List.flatten_cons] at front
        exact List.prefix_of_prefix_length_le front (List.prefix_append _ _) (Nat.le_of_lt short)
      obtain ⟨mid, received, held, queue'⟩ := callbackPart fresh (wf p inside) (fits p inside) start
        short (kept p others rfl short)
      exact ⟨mid, p.length, (same mid).mpr received, cut, .inr ⟨p,others,rfl,short⟩, held,
        fun _ => ⟨p,others,rfl,rfl⟩, by rw [queue', queue]⟩

theorem runReaches {link : MTCLink} {part : Bytes} (more : Bytes) {packets inputs : List Bytes} {want : Nat}
    (h : Holds link part want) (expects : Expects part packets want)
    (wf : ∀ p ∈ packets, WellFormed p) (fits : ∀ p ∈ packets, p.length ≤ sbcPacketSize)
    (stream : part ++ inputs.flatten ++ more = packets.flatten)
    (cuts : CutsKeepLength part packets inputs) :
    ∃ out done later got want', RecvAll link inputs out ∧
      part ++ inputs.flatten = done.flatten ++ got ∧ Reached link out packets done later got want' := by
  induction inputs generalizing link part packets want with
  | nil =>
    refine ⟨link, [], packets, part, want, rfl, by simp, rfl, ?_, h, expects, by simp⟩
    by_cases begun : part = []
    · cases packets with
      | nil => exact .inl ⟨rfl,begun⟩
      | cons p later =>
        have full := List.length_pos_of_ne_nil (wellFormedFull wf p (by simp))
        exact .inr ⟨p, later, rfl, by simpa [begun] using full⟩
    · obtain ⟨p, later, same, rfl⟩ := expects begun
      exact .inr ⟨p, later, same, h.short begun⟩
  | cons input inputs ih =>
    rw [List.flatten_cons, ← List.append_assoc, List.append_assoc] at stream
    obtain ⟨done, later, got, cut, bytes, rest, stop⟩ := flattenCut (wellFormedFull wf) stream
    have cuts' := cutsNext cut bytes cuts
    obtain ⟨mid, want', received, r⟩ := callbackReaches h expects wf fits cut bytes ⟨_,rest⟩ stop
      fun p others same short => cutsStart inputs cuts' same short
    obtain ⟨out, done', later', got', want'', run, bytes', r'⟩ := ih r.holds r.expects
      (fun p mem => wf p (cut ▸ List.mem_append_right _ mem))
      (fun p mem => fits p (cut ▸ List.mem_append_right _ mem))
      (by rw [List.append_assoc, rest]) cuts'
    refine ⟨out, done ++ done', later', got', want'', ⟨mid,received,run⟩, ?_, ?_, r'.stop, r'.holds,
      r'.expects, ?_⟩
    · rw [List.flatten_cons, ← List.append_assoc, bytes, List.append_assoc, bytes']
      simp
    · rw [cut, r'.cut, List.append_assoc]
    · rw [r'.queue, r.queue]; simp

theorem runDelivers {link : MTCLink} (f : Fresh link) {packets inputs : List Bytes}
    (wf : ∀ p ∈ packets, WellFormed p) (fits : ∀ p ∈ packets, p.length ≤ sbcPacketSize)
    (stream : inputs.flatten = packets.flatten) (cuts : CutsKeepLength [] packets inputs) :
    Delivered link packets inputs := by
  obtain ⟨out, done, later, got, want, run, bytes, r⟩ := runReaches [] (freshHolds f 0)
    (fun no => absurd rfl no) wf fits (by simpa using stream) cuts
  refine ⟨out, run, ?_⟩
  suffices none : later = [] by rw [r.queue, r.cut, none, List.append_nil]
  rcases r.stop with ⟨none, -⟩ | ⟨p, rest, same, short⟩
  · exact none
  · rw [List.nil_append, stream, r.cut, List.flatten_append] at bytes
    have tails := List.append_cancel_left bytes
    have lengths := congrArg List.length tails
    simp only [same, List.flatten_cons, List.length_append] at lengths
    omega

end PennDaq.MTC
