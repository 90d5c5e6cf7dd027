import MirrorMirage.Queue.Invariant
import MirrorMirage.Stdlib.Json
import Mathlib.Data.List.Chain

/-!
# The column of the URLs

`enqueue` writes the URLs of a batch into the column `urls_json`, and
`claim_ready` reads them back.  A URL is a Python string, with a low surrogate
for each byte of a file name that is no UTF-8; those of the machine have no
surrogates.
-/

namespace MirrorMirage.Queue

open MirrorMirage.Json MirrorMirage.Run

/-- `json.dumps(list(urls))` of `enqueue`. -/
def urlsColumn (urls : List Text) : Text := dumps urls

/-- `json.loads(row[2])` of `claim_ready`. -/
def claimedUrls (column : Text) : Option (List Text) := loads column

/-- A string without surrogates. -/
def codes (text : String) : Text := text.toList.map Char.toNat

/-- What the table has in `urls_json`. -/
def Db.urlsJson (db : Db) (id : ℕ) : Option Text :=
  (db.row id).map fun row => urlsColumn (row.urls.map codes)

section Columns

variable {text : Text} {urls : List Text}

/-- Where no character is a high surrogate, as in a decoded file name. -/
theorem unpaired_of_no_high (hhigh : ∀ code ∈ text, isHigh code = false) :
    Unpaired text := by
  induction text with
  | nil => exact .nil
  | cons code text ih =>
      refine List.isChain_cons.mpr ⟨fun low _ hpair => ?_,
        ih fun other hother => hhigh other (List.mem_cons_of_mem _ hother)⟩
      simp [hhigh code (by simp)] at hpair

theorem codes_lt (text : String) : ∀ code ∈ codes text, code < 0x110000 := by
  intro code hcode
  obtain ⟨char, -, rfl⟩ := List.mem_map.mp hcode
  rcases char.valid with hlt | ⟨-, hlt⟩
  · exact hlt.trans (by decide)
  · exact hlt

theorem unpaired_codes (text : String) : Unpaired (codes text) := by
  refine unpaired_of_no_high fun code hcode => ?_
  obtain ⟨char, -, rfl⟩ := List.mem_map.mp hcode
  rw [Bool.eq_false_iff, Ne, isHigh_iff]
  have hvalid : char.toNat < 0xd800 ∨ 0xdfff < char.toNat :=
    char.valid.imp_right And.left
  omega

/-- The column of a job that is being purged gives its URLs. -/
theorem claimedUrls_of_purging {retry : RetryConfig}
    {allowed : State → Action → Prop} {now : ℚ} {trace : List Obs} {s : State}
    {cdnName : String} {job : Job}
    (hrun : Reaches (step retry) allowed (init now) trace s)
    (hphase : s.phase = .running)
    (hpoint : (s.worker cdnName).point = .purging job) :
    (s.committed.urlsJson job.id).bind claimedUrls =
      some (job.urls.map codes) := by
  obtain ⟨row, -, -, hjob, -, hcommitted⟩ :=
    ((sound_of_reaches hrun).tended_at hphase hpoint).serves
  have hurls : row.urls = job.urls := congrArg Job.urls hjob
  rw [Db.urlsJson, hcommitted, Option.map_some, Option.bind_some, hurls]
  refine (loads_dumps_iff ?_).mpr ?_ <;> intro item hitem <;>
    obtain ⟨url, -, rfl⟩ := List.mem_map.mp hitem
  · exact codes_lt url
  · exact unpaired_codes url

end Columns

/-- What `enqueue` writes is printable ASCII, and `claim_ready` reads from it
the URLs that were written, if and only if none of them has a low surrogate
right after a high one. -/
theorem urls_are_read_back_iff {urls : List Text}
    (hcodes : ∀ url ∈ urls, ∀ code ∈ url, code < 0x110000) :
    Printable (urlsColumn urls) ∧
      (claimedUrls (urlsColumn urls) = some urls ↔
        ∀ url ∈ urls, Unpaired url) :=
  ⟨printable_dumps hcodes, loads_dumps_iff hcodes⟩

/-- A file name with a byte that is no UTF-8, and one with a quote. -/
theorem urls_are_read_back_iff_sample :
    claimedUrls (urlsColumn [codes "https://x/" ++ [0xdcff], codes "a\"é𝄞"]) =
      some [codes "https://x/" ++ [0xdcff], codes "a\"é𝄞"] := by
  refine (urls_are_read_back_iff ?_).2.mpr ?_
  · decide
  · intro url hurl
    refine unpaired_of_no_high ?_
    revert url
    decide

end MirrorMirage.Queue
