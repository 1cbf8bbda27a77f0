import PennDaq.BoardLocation

/-! A whole run of `UpdateLocation`: the requested boards go to their targets, the boards
that stood there are gone, and the others stay. -/
namespace PennDaq.BoardLocation
open Lib.CString
open Lib.JsonTree

def Fits {n : Nat} (boards : Spot n → Json) : Prop :=
  ∀ s text, boards s = .string text → text.toList.length ≤ 4

def Once {n : Nat} (boards : Spot n → Json) : Prop :=
  ∀ s s' text, boards s = .string text → boards s' = .string text → s = s'

theorem idLength (id : BitVec 16) : (idString id).toList.length = 4 := by
  simp [idString, hex4]

theorem idInjective {a b : BitVec 16} (same : idString a = idString b) : a = b := by
  have texts := congrArg String.toList same
  simp only [idString, String.toList_ofList] at texts
  exact hex4Injective texts

theorem sameIdIff {a b : String} (left : a.toList.length ≤ 4) (right : b.toList.length ≤ 4) :
    sameId a b = true ↔ a = b := by
  unfold sameId
  rw [List.take_of_length_le left, List.take_of_length_le right]
  simp [String.toList_inj]

theorem matchCountText {ids : List String} (fit : ∀ id ∈ ids, id.toList.length ≤ 4) {text : String}
    (short : text.toList.length ≤ 4) : matchCount ids (some (.string text)) = ids.count text := by
  unfold matchCount
  rw [getStringString]
  refine List.countP_congr fun id mem => ?_
  rw [sameIdIff (fit id mem) short, beq_iff_eq]

theorem matchCountElse {ids : List String} {board : Json} (other : ∀ text, board ≠ .string text) :
    matchCount ids (some board) = 0 := by
  unfold matchCount
  cases h : getString (some board) with
  | none => rfl
  | some text => exact absurd (getStringSome h) (other text)

section
variable {ids : List String} (fit : ∀ id ∈ ids, id.toList.length ≤ 4)

include fit

theorem clearedMember {text : String} (short : text.toList.length ≤ 4) (mem : text ∈ ids) :
    cleared ids (.string text) = .null := by
  unfold cleared
  rw [matchCountText fit short, if_pos]
  exact (List.count_pos_iff.2 mem).ne'

theorem clearedOther {board : Json} (short : ∀ text, board = .string text → text.toList.length ≤ 4)
    (other : ∀ text, board = .string text → text ∉ ids) : cleared ids board = board := by
  unfold cleared
  by_cases string : ∃ text, board = .string text
  · obtain ⟨text, rfl⟩ := string
    rw [matchCountText fit (short text rfl), List.count_eq_zero.2 (other text rfl)]
    rfl
  · rw [matchCountElse fun text same => string ⟨text,same⟩]
    rfl

theorem clearedString {board : Json} (short : ∀ text, board = .string text → text.toList.length ≤ 4)
    {text : String} (left : cleared ids board = .string text) : board = .string text ∧ text ∉ ids := by
  by_cases held : ∃ id ∈ ids, board = .string id
  · obtain ⟨id, mem, rfl⟩ := held
    rw [clearedMember fit (short id rfl) mem] at left
    cases left
  · rw [clearedOther fit short fun id same mem => held ⟨id,mem,same⟩] at left
    exact ⟨left, fun mem => held ⟨text,mem,left⟩⟩

theorem matchesOnce {n : Nat} {boards : Spot n → Json} (fits : Fits boards) (distinct : ids.Nodup) (s : Spot n) :
    matchCount ids (some (boards s)) ≤ 1 := by
  by_cases string : ∃ text, boards s = .string text
  · obtain ⟨text, same⟩ := string
    rw [same, matchCountText fit (fits s text same)]
    exact List.nodup_iff_count_le_one.1 distinct text
  · rw [matchCountElse fun text same => string ⟨text,same⟩]
    exact Nat.zero_le 1

end

structure Placed {n : Nat} (target : Request → Spot n) (requests : List Request)
    (boards after : Spot n → Json) : Prop where
  here : ∀ r ∈ requests, after (target r) = r.board
  others : ∀ s, (∀ r ∈ requests, s ≠ target r) → after s = boards s

theorem placeAllSpec {n : Nat} {u : Update} {numbers : Fin n → ℚ} {boards : Spot n → Json}
    (shown : ShowsConfig u.doc numbers boards) (apart : Function.Injective numbers)
    {requests : List Request} {target : Request → Spot n}
    (aimed : ∀ r ∈ requests, Aimed numbers r (target r)) (distinct : (requests.map target).Nodup) :
    ∃ u' after, requests.foldlM placeOne u = some u' ∧ ShowsConfig u'.doc numbers after ∧
      Placed target requests boards after ∧
      u'.old = u.old ++ requests.filterMap fun r => getString (some (boards (target r))) := by
  induction requests generalizing u boards with
  | nil => exact ⟨u, boards, rfl, shown, ⟨by simp, fun _ _ => rfl⟩, by simp⟩
  | cons r later ih =>
    rw [List.map_cons, List.nodup_cons] at distinct
    obtain ⟨fresh, distinct⟩ := distinct
    have apart' (q : Request) (mem : q ∈ later) : target q ≠ target r := fun same =>
      fresh (List.mem_map.2 ⟨q,mem,same⟩)
    obtain ⟨mid, placed, shown', old⟩ := placeOneSpec shown apart (aimed r List.mem_cons_self)
    obtain ⟨u', after, run, shown'', left, old'⟩ := ih shown'
      (fun q mem => aimed q (List.mem_cons_of_mem _ mem)) distinct
    refine ⟨u', after, ?_, shown'', ⟨?_, ?_⟩, ?_⟩
    · rw [List.foldlM_cons, placed]
      exact run
    · intro q mem
      rcases List.mem_cons.mp mem with rfl | mem
      · rw [left.others _ fun p mem => (apart' p mem).symm, Function.update_self]
      · exact left.here q mem
    · intro s other
      rw [left.others s fun q mem => other q (List.mem_cons_of_mem _ mem),
        Function.update_of_ne (other r List.mem_cons_self)]
    · have unmoved : (later.filterMap fun q =>
          getString (some (Function.update boards (target r) r.board (target q)))) =
          later.filterMap fun q => getString (some (boards (target q))) :=
        List.filterMap_congr fun q mem => by rw [Function.update_of_ne (apart' q mem)]
      rw [old', old, unmoved, List.append_assoc, List.filterMap_cons]
      cases getString (some (boards (target r))) <;> rfl

structure Relocated {n : Nat} (target : Request → Spot n) (requests : List Request)
    (boards after : Spot n → Json) : Prop where
  here : ∀ r ∈ requests, ∀ s, after s = r.board ↔ s = target r
  gone : ∀ r ∈ requests, ∀ text, boards (target r) = .string text → (∀ q ∈ requests, idString q.id ≠ text) →
    ∀ s, after s ≠ .string text
  others : ∀ s, (∀ r ∈ requests, s ≠ target r) → (∀ r ∈ requests, boards s ≠ r.board) → after s = boards s

def requestIds (requests : List Request) : List String := requests.map fun r => idString r.id

theorem requestIdsFit (requests : List Request) : ∀ id ∈ requestIds requests, id.toList.length ≤ 4 := by
  intro id mem
  obtain ⟨r, -, rfl⟩ := List.mem_map.mp mem
  exact (idLength r.id).le

theorem requestIdsNodup (distinct : (requests.map Request.id).Nodup) : (requestIds requests).Nodup := by
  have mapped := distinct.map (f := idString) fun a b same => idInjective same
  rwa [List.map_map] at mapped

section
variable {n : Nat} {target : Request → Spot n} {requests : List Request} {boards after : Spot n → Json}

theorem placedString (fits : Fits boards)
    (placed : Placed target requests (fun s => cleared (requestIds requests) (boards s)) after) {s : Spot n}
    {text : String} (there : after s = .string text) :
    (∃ q ∈ requests, s = target q ∧ idString q.id = text) ∨
      boards s = .string text ∧ (∀ q ∈ requests, s ≠ target q) ∧ text ∉ requestIds requests := by
  by_cases aimed : ∃ q ∈ requests, s = target q
  · obtain ⟨q, mem, rfl⟩ := aimed
    rw [placed.here q mem] at there
    exact .inl ⟨q, mem, rfl, Json.string.inj there⟩
  · have away (q : Request) (mem : q ∈ requests) : s ≠ target q := fun same => aimed ⟨q,mem,same⟩
    rw [placed.others s away] at there
    obtain ⟨stood, free⟩ := clearedString (requestIdsFit requests) (fits s) there
    exact .inr ⟨stood, away, free⟩

theorem oldNowhere (fits : Fits boards) (once : Once boards)
    (placed : Placed target requests (fun s => cleared (requestIds requests) (boards s)) after) {r : Request}
    (mem : r ∈ requests) {text : String}
    (old : cleared (requestIds requests) (boards (target r)) = .string text) (s : Spot n) :
    after s ≠ .string text := by
  intro there
  obtain ⟨held, free⟩ := clearedString (requestIdsFit requests) (fits (target r)) old
  rcases placedString fits placed there with ⟨q, mem', -, rfl⟩ | ⟨stood, away, -⟩
  · exact free (List.mem_map.2 ⟨q,mem',rfl⟩)
  · exact away r mem (once s (target r) text stood held)

theorem placedFits (fits : Fits boards)
    (placed : Placed target requests (fun s => cleared (requestIds requests) (boards s)) after) : Fits after := by
  intro s text there
  rcases placedString fits placed there with ⟨q, mem, -, rfl⟩ | ⟨stood, -, -⟩
  · exact (idLength q.id).le
  · exact fits s text stood

theorem oldUnmatched (fits : Fits boards) (once : Once boards)
    (placed : Placed target requests (fun s => cleared (requestIds requests) (boards s)) after) {old : List String}
    (held : ∀ text ∈ old, ∃ r ∈ requests, cleared (requestIds requests) (boards (target r)) = .string text)
    (s : Spot n) : matchCount old (some (after s)) = 0 := by
  have fit (text : String) (mem : text ∈ old) : text.toList.length ≤ 4 := by
    obtain ⟨r, -, stood⟩ := held text mem
    exact fits (target r) text (clearedString (requestIdsFit requests) (fits (target r)) stood).1
  by_cases string : ∃ text, after s = .string text
  · obtain ⟨text, there⟩ := string
    rw [there, matchCountText fit (placedFits fits placed s text there), List.count_eq_zero]
    intro mem
    obtain ⟨r, mem, stood⟩ := held text mem
    exact oldNowhere fits once placed mem stood s there
  · exact matchCountElse fun text there => string ⟨text,there⟩

theorem placedRelocated (fits : Fits boards) (once : Once boards) (ids : (requests.map Request.id).Nodup)
    (placed : Placed target requests (fun s => cleared (requestIds requests) (boards s)) after) :
    Relocated target requests boards after := by
  refine ⟨fun r mem s => ⟨fun there => ?_, ?_⟩, fun r mem text stood free s => ?_, fun s away free => ?_⟩
  · rcases placedString fits placed there with ⟨q, mem', rfl, same⟩ | ⟨-, -, free⟩
    · rw [List.inj_on_of_nodup_map ids mem' mem (idInjective same)]
    · exact absurd (List.mem_map.2 ⟨r,mem,rfl⟩) free
  · rintro rfl
    exact placed.here r mem
  · have unrequested : text ∉ requestIds requests := by
      intro requested
      obtain ⟨q, mem', same⟩ := List.mem_map.mp requested
      exact free q mem' same
    refine oldNowhere fits once placed mem ?_ s
    rw [clearedOther (requestIdsFit requests) (fits (target r)), stood]
    intro other same
    rw [stood] at same
    cases same
    exact unrequested
  · rw [placed.others s away]
    refine clearedOther (requestIdsFit requests) (fits s) fun text stood requested => ?_
    obtain ⟨q, mem, rfl⟩ := List.mem_map.mp requested
    exact free q mem stood

end

theorem boardsRelocated {n : Nat} {doc : Json} {numbers : Fin n → ℚ} {boards : Spot n → Json}
    (shown : ShowsConfig doc numbers boards) (apart : Function.Injective numbers) (fits : Fits boards)
    (once : Once boards) {requests : List Request} {target : Request → Spot n}
    (count : requests.length ≤ 16*6) (ids : (requests.map Request.id).Nodup)
    (aimed : ∀ r ∈ requests, Aimed numbers r (target r)) (distinct : (requests.map target).Nodup) :
    ∃ doc' after, updateLocation requests doc = some doc' ∧ ShowsConfig doc' numbers after ∧
      Relocated target requests boards after := by
  obtain ⟨mid, removed, shown'⟩ := removeFromConfigSpec (requestIds requests) shown
    (matchesOnce (requestIdsFit requests) fits (requestIdsNodup ids))
  obtain ⟨u, after, run, shown'', placed, old⟩ := placeAllSpec (u := ⟨mid,none,[]⟩) shown' apart aimed distinct
  rw [List.nil_append] at old
  have start : updateLocation requests doc = if u.old = [] then some u.doc else removeFromConfig u.old u.doc := by
    unfold updateLocation
    rw [if_pos count]
    simp only [requestIds] at removed
    simp only [removed, run, Option.bind_eq_bind, Option.bind_some]
    rfl
  have held (text : String) (mem : text ∈ u.old) :
      ∃ r ∈ requests, cleared (requestIds requests) (boards (target r)) = .string text := by
    rw [old, List.mem_filterMap] at mem
    obtain ⟨r, mem, stood⟩ := mem
    exact ⟨r, mem, getStringSome stood⟩
  have unmatched := oldUnmatched fits once placed held
  have relocated := placedRelocated fits once ids placed
  by_cases noOld : u.old = []
  · rw [if_pos noOld] at start
    exact ⟨u.doc, after, start, shown'', relocated⟩
  · obtain ⟨last, removed', shownLast⟩ := removeFromConfigSpec u.old shown'' fun s => by
      rw [unmatched s]
      exact Nat.zero_le 1
    rw [if_neg noOld] at start
    refine ⟨last, after, start.trans removed', ?_, relocated⟩
    simpa only [cleared, unmatched, ne_eq, not_true_eq_false, if_false] using shownLast

def configOf {n : Nat} (numbers : Fin n → ℚ) (boards : Spot n → Json) : Json :=
  .object [("crates",arrayOf fun c => .object [("id",.number (numbers c)),
    ("fecs",arrayOf fun j => .object [("id",boards (c,.fec j)),("dbs",arrayOf fun k => boards (c,.db j k))]),
    ("pmtics",arrayOf fun j => boards (c,.pmtic j))])]

theorem configShown {n : Nat} (numbers : Fin n → ℚ) (boards : Spot n → Json) :
    ShowsConfig (configOf numbers boards) numbers boards := by
  exact ⟨⟨_,rfl,by simp [keys]⟩, _, rfl, fun c =>
    ⟨⟨_,rfl,by simp [keys]⟩, rfl, ⟨_, rfl, fun j => ⟨⟨_,rfl,by simp [keys]⟩, rfl, rfl⟩⟩, rfl⟩⟩

def sampleBoards (s : Spot 1) : Json :=
  if s.2 = .fec 0 then .string "f0a1"
  else if s.2 = .fec 1 then .string "f0b2"
  else if s.2 = .db 1 ⟨2,by decide⟩ then .string "d00d"
  else .null

def sampleTarget (r : Request) : Spot 1 := if r.id = 0xf0a1 then (0,.fec 1) else (0,.db 0 ⟨0,by decide⟩)

theorem sampleFits : Fits sampleBoards := by
  intro s text held
  unfold sampleBoards at held
  split_ifs at held <;> cases held <;> decide

theorem sampleOnce : Once sampleBoards := by
  intro s s' text held held'
  have same : sampleBoards s = sampleBoards s' := held.trans held'.symm
  have filled : sampleBoards s ≠ .null := by simp [held]
  refine Prod.ext (Subsingleton.elim _ _) ?_
  clear held held'
  unfold sampleBoards at same filled
  split_ifs at same filled <;> simp_all

theorem boardsRelocatedSample :
    ∃ doc' after, updateLocation [⟨0xf0a1,0,1,0⟩,⟨0xd00d,0,0,1⟩] (configOf (fun _ => 0) sampleBoards) = some doc' ∧
      ShowsConfig doc' (fun _ => 0) after ∧
      Relocated sampleTarget [⟨0xf0a1,0,1,0⟩,⟨0xd00d,0,0,1⟩] sampleBoards after :=
  boardsRelocated (configShown _ _) (fun _ _ _ => Subsingleton.elim _ _) sampleFits sampleOnce (by decide) (by decide)
    (by
      intro r mem
      rcases List.mem_pair.mp mem with rfl | rfl
      · exact ⟨by norm_num, rfl⟩
      · exact ⟨by norm_num, rfl⟩)
    (by decide)

end PennDaq.BoardLocation
