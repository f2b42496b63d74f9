import Orus.Proofs.Sharing.Letters
import Orus.Proofs.Sharing.Utf8
import Orus.Share.Token

/-! # Share tokens carry their source

Writing a source as a token loses nothing and needs no quoting in an address. Reading is
more generous than writing: a token may have blanks around it, padding, either spelling of
two letters and stray bits in its last letter. Up to that there is one token for each source.
-/

namespace Orus.Share

open Text

/-! ## Steps of the reader -/

theorem decodeSource_of_ok {token : String} {bytes : List Nat} {cs : List Char}
    (hbytes : decodeLetters (pad (trim token.toList)) = .ok bytes)
    (hcs : decodeUtf8 bytes = .ok cs) : decodeSource token = .ok (String.ofList cs) := by
  unfold decodeSource
  rw [hbytes]
  change ((decodeUtf8 bytes).mapError _ >>= _) = _
  rw [hcs]
  rfl

theorem decodeLetters_of_decodeSource {token source : String}
    (h : decodeSource token = .ok source) :
    decodeLetters (pad (trim token.toList)) = .ok (utf8 source.toList) := by
  unfold decodeSource at h
  cases hbytes : decodeLetters (pad (trim token.toList)) with
  | error e =>
    rw [hbytes] at h
    cases h
  | ok bytes =>
    rw [hbytes] at h
    change ((decodeUtf8 bytes).mapError _ >>= _) = _ at h
    cases hcs : decodeUtf8 bytes with
    | error e =>
      rw [hcs] at h
      cases h
    | ok cs =>
      rw [hcs] at h
      cases h
      rw [decodeUtf8_eq_ok_iff.1 hcs, String.toList_ofList]

/-! ## Writing and reading back -/

theorem areLetters_encodeBytes {bytes : List Nat} (h : ∀ b ∈ bytes, b < 256) :
    AreLetters (encodeBytes bytes) (splitBytes bytes) := by
  rw [encodeBytes_eq_map]
  exact areLetters_map_letter (lt_of_mem_splitBytes h)

theorem isBlank_letter : ∀ n < 64, isBlank (letter n) = false := by
  decide

theorem toList_encodeSource (source : String) :
    (encodeSource source).toList = (splitBytes (utf8 source.toList)).map letter := by
  rw [encodeSource, String.toList_ofList, encodeBytes_eq_map]

theorem lt_of_mem_sextets {source : String} {n : Nat}
    (h : n ∈ splitBytes (utf8 source.toList)) : n < 64 :=
  lt_of_mem_splitBytes (fun _ hb => lt_of_mem_utf8 hb) n h

theorem forall_mem_encodeSource {p : Char → Prop} (h : ∀ n < 64, p (letter n)) (source : String) :
    ∀ c ∈ (encodeSource source).toList, p c := by
  intro c hc
  rw [toList_encodeSource] at hc
  obtain ⟨n, hn, rfl⟩ := List.mem_map.1 hc
  exact h n (lt_of_mem_sextets hn)

theorem decodeSource_encodeSource (source : String) :
    decodeSource (encodeSource source) = .ok source := by
  have hbytes : ∀ b ∈ utf8 source.toList, b < 256 := fun b hb => lt_of_mem_utf8 hb
  have htrim : trim (encodeSource source).toList = encodeBytes (utf8 source.toList) := by
    rw [trim, trimWith_eq_self (forall_mem_encodeSource isBlank_letter source),
      toList_encodeSource, encodeBytes_eq_map]
  have hread : decodeLetters (pad (trim (encodeSource source).toList)) =
      .ok (utf8 source.toList) := by
    rw [htrim, pad, decodeLetters_of_areLetters (areLetters_encodeBytes hbytes)
      (length_splitBytes_mod _), joinSextets_splitBytes hbytes]
  rw [decodeSource_of_ok hread (decodeUtf8_eq_ok_iff.2 rfl), String.ofList_toList]

/-- A token has only letters, digits, `-` and `_`, and its source is read back from it. -/
theorem token_lossless (source : String) :
    (∀ c ∈ (encodeSource source).toList, c.isAlphanum = true ∨ c = '-' ∨ c = '_') ∧
    decodeSource (encodeSource source) = .ok source := by
  constructor
  · exact forall_mem_encodeSource isAlphanum_letter source
  · exact decodeSource_encodeSource source

/-! ## One token for each source -/

/-- The letters of a token in the spelling that is written, without blanks and padding. -/
def spelled (token : String) : List Char :=
  ((trim token.toList).filter (· ≠ '=')).map spelling

def clearLetter (bits : Nat) (c : Char) : Char :=
  letter (clearBits bits ((sextet? c).getD 0))

/-- Letters, the last one without the bits that belong to no byte. -/
def canonical (cs : List Char) : List Char :=
  cs.dropLast ++ (cs.getLast?.map (clearLetter (spareBits cs.length))).toList

@[simp] theorem length_canonical (cs : List Char) : (canonical cs).length = cs.length := by
  rcases cs.eq_nil_or_concat with rfl | ⟨front, c, rfl⟩
  · rfl
  · simp [canonical]

@[simp] theorem dropLast_canonical (cs : List Char) : (canonical cs).dropLast = cs.dropLast := by
  rcases cs.eq_nil_or_concat with rfl | ⟨front, c, rfl⟩
  · rfl
  · simp [canonical]

@[simp] theorem getLast?_canonical (cs : List Char) :
    (canonical cs).getLast? = cs.getLast?.map (clearLetter (spareBits cs.length)) := by
  rcases cs.eq_nil_or_concat with rfl | ⟨front, c, rfl⟩
  · rfl
  · simp [canonical]

theorem canonical_map_letter {ns : List Nat} (h : ∀ n ∈ ns, n < 64) :
    canonical (ns.map letter) = (clearLast (spareBits ns.length) ns).map letter := by
  rcases ns.eq_nil_or_concat with rfl | ⟨front, n, rfl⟩
  · rfl
  · have hn := sextet?_letter n (h n (by simp))
    simp [canonical, clearLast, clearLetter, hn]

theorem filter_of_pad_eq {cs letters : List Char} {ns : List Nat} {pads : Nat}
    (h : pad cs = letters ++ List.replicate pads '=') (hletters : AreLetters letters ns) :
    cs.filter (· ≠ '=') = letters := by
  have hnone : letters.filter (· ≠ '=') = letters := by
    rw [List.filter_eq_self]
    intro c hc
    obtain ⟨n, hn⟩ := hletters.exists_sextet? c hc
    simpa using ne_pad_of_sextet? hn
  have hfilter := congrArg (List.filter (· ≠ '=')) h
  rw [pad, List.filter_append, List.filter_append, hnone] at hfilter
  simpa using hfilter

/-- The letters of a token that can be read: their numbers stand for the bytes of its
source. -/
theorem spelled_of_decodeSource {token source : String} (h : decodeSource token = .ok source) :
    ∃ ns, spelled token = ns.map letter ∧ (∀ n ∈ ns, n < 64) ∧ ns.length % 4 ≠ 1 ∧
      utf8 source.toList = joinSextets ns := by
  obtain ⟨letters, ns, pads, hpad, hletters, hlength, hbytes⟩ :=
    exists_of_decodeLetters (decodeLetters_of_decodeSource h)
  refine ⟨ns, ?_, hletters.lt, hlength, hbytes⟩
  rw [spelled, filter_of_pad_eq hpad hletters, hletters.map_letter]

theorem toList_encodeSource_of_decodeSource {token source : String}
    (h : decodeSource token = .ok source) :
    (encodeSource source).toList = canonical (spelled token) := by
  obtain ⟨ns, hspelled, hlt, hlength, hbytes⟩ := spelled_of_decodeSource h
  rw [toList_encodeSource, hbytes, splitBytes_joinSextets hlt hlength, hspelled,
    canonical_map_letter hlt]

theorem encodeSource_inj {source source' : String} :
    encodeSource source = encodeSource source' ↔ source = source' := by
  constructor
  · intro h
    have hsource := decodeSource_encodeSource source
    rw [h, decodeSource_encodeSource] at hsource
    exact (Except.ok.inj hsource).symm
  · rintro rfl
    rfl

/-- The letters of a token that can be read are those of the token that is written for its
source, but for the bits of the last one that lie beyond the bytes. So there is one token for
each source, up to these bits and the spelling. -/
theorem encodeSource_of_decodeSource {token source : String} (h : decodeSource token = .ok source) :
    (encodeSource source).toList = canonical (spelled token) ∧
    (encodeSource source).toList.length = (spelled token).length ∧
    (encodeSource source).toList.dropLast = (spelled token).dropLast ∧
    (∀ c ∈ (spelled token).getLast?, ∃ n bits, sextet? c = some n ∧
      8 * (utf8 source.toList).length + bits = 6 * (spelled token).length ∧
      (encodeSource source).toList.getLast? = some (letter (clearBits bits n))) ∧
    ∀ token' source', decodeSource token' = .ok source' →
      (source' = source ↔ canonical (spelled token') = canonical (spelled token)) := by
  obtain ⟨ns, hspelled, hlt, hlength, hbytes⟩ := spelled_of_decodeSource h
  have hwritten := toList_encodeSource_of_decodeSource h
  refine ⟨hwritten, ?_, ?_, ?_, fun token' source' h' => ?_⟩
  · rw [hwritten, length_canonical]
  · rw [hwritten, dropLast_canonical]
  · intro c hc
    obtain ⟨n, hn, rfl⟩ : ∃ n ∈ ns, letter n = c := by
      rw [hspelled] at hc
      exact List.mem_map.1 (List.mem_of_getLast? hc)
    have hsextet := sextet?_letter n (hlt n hn)
    refine ⟨n, spareBits ns.length, hsextet, ?_, ?_⟩
    · rw [hbytes, length_joinSextets hlength, hspelled, List.length_map]
    · rw [hwritten, getLast?_canonical, hc, hspelled, List.length_map, Option.map_some, clearLetter,
        hsextet, Option.getD_some]
  · rw [← encodeSource_inj, ← String.toList_inj, hwritten, toList_encodeSource_of_decodeSource h']

/-- A token with blanks, padding and a stray bit in its last letter, and the one that is
written for the same source. -/
theorem encodeSource_of_decodeSource_strayBit :
    decodeSource " QR= " = .ok "A" ∧ decodeSource "QQ" = .ok "A" ∧
    (encodeSource "A").toList.dropLast = (spelled " QR= ").dropLast ∧
    (spelled " QR= ").getLast? = some 'R' ∧
    (∃ n bits, sextet? 'R' = some n ∧
      8 * (utf8 "A".toList).length + bits = 6 * (spelled " QR= ").length ∧
      (encodeSource "A").toList.getLast? = some (letter (clearBits bits n))) ∧
    canonical (spelled "QQ") = canonical (spelled " QR= ") := by
  have hstray : decodeSource " QR= " = .ok "A" := by decide +kernel
  have hwritten : decodeSource "QQ" = .ok "A" := by decide +kernel
  have hlast : (spelled " QR= ").getLast? = some 'R' := by decide +kernel
  obtain ⟨-, -, hfront, hcleared, hsame⟩ := encodeSource_of_decodeSource hstray
  exact ⟨hstray, hwritten, hfront, hlast, hcleared 'R' hlast, (hsame "QQ" "A" hwritten).1 rfl⟩

end Orus.Share
