import TypeCatalog.Proofs.Archive.Listing
import TypeCatalog.Proofs.Text.Utf8

/-! # Archives that were written

    The entries of an archive that was written are listed in it, if they are stored and small enough
    for the numbers in its records. The end record is the last thing in it, so no other place is
    tried; the directory starts where that record says; and each entry of the directory leads to the
    bytes of one entry in front of it. If the entries have different names, they are read back. -/

set_option autoImplicit false

namespace TypeCatalog.Archive

/-! ## Section 1: Bytes at an offset -/

/-- Bytes stand at an offset of others. -/
def Stands (data : Array UInt8) (offset : Nat) (bytes : List UInt8) : Prop :=
  ∃ before after, data.toList = before ++ (bytes ++ after) ∧ before.length = offset

namespace Stands

variable {data : Array UInt8} {offset : Nat} {a b : List UInt8}

/-- What stands there in two parts is one after the other. -/
theorem split (h : Stands data offset (a ++ b)) (next : Nat) (hnext : offset + a.length = next) :
    Stands data offset a ∧ Stands data next b := by
  obtain ⟨before, after, hdata, hbefore⟩ := h
  constructor
  · exact ⟨before, b ++ after, by rw [hdata, List.append_assoc], hbefore⟩
  · refine ⟨before ++ a, after, ?_, ?_⟩
    · rw [hdata, List.append_assoc, List.append_assoc]
    · rw [List.length_append, hbefore, hnext]

theorem le_size (h : Stands data offset a) : offset + a.length ≤ data.size := by
  obtain ⟨before, after, hdata, hbefore⟩ := h
  have hsize := congrArg List.length hdata
  simp only [Array.length_toList, List.length_append] at hsize
  omega

theorem extract_eq (h : Stands data offset a) {last : Nat} (hlast : offset + a.length = last) :
    (data.extract offset last).toList = a := by
  obtain ⟨before, after, hdata, rfl⟩ := h
  rw [Array.toList_extract, hdata, List.extract_eq_take_drop, List.drop_left, ← hlast,
    Nat.add_sub_cancel_left, List.take_left]

theorem slice_eq (h : Stands data offset a) {length : Nat} (hlength : a.length = length) :
    slice data offset length = a := by
  rw [← hlength]
  exact h.extract_eq rfl

theorem u2_eq {n : Nat} (h : Stands data offset (bytesOfNat 2 n)) (hn : n < 0x10000) :
    u2 data offset = n := by
  rw [u2, h.slice_eq (length_bytesOfNat 2 n), natOfBytes_bytesOfNat 2 hn]

theorem u4_eq {n : Nat} (h : Stands data offset (bytesOfNat 4 n)) (hn : n < 0x100000000) :
    u4 data offset = n := by
  rw [u4, h.slice_eq (length_bytesOfNat 4 n), natOfBytes_bytesOfNat 4 hn]

theorem standsAt_eq (h : Stands data offset a) : standsAt data offset a = true := by
  induction a generalizing offset with
  | nil => rfl
  | cons x a ih =>
    obtain ⟨hx, ha⟩ := split (a := [x]) h _ rfl
    obtain ⟨before, after, hdata, rfl⟩ := hx
    have hget : data[before.length]? = some x := by
      rw [← Array.getElem?_toList, hdata, List.getElem?_append_right (Nat.le_refl _), Nat.sub_self]
      rfl
    rw [standsAt, hget, BEq.rfl, Bool.true_and]
    exact ih ha

end Stands

/-! ## Section 2: Entries -/

/-- The name and the content of an entry fit the numbers in its records. -/
structure Fits (name : String) (bytes : List UInt8) : Prop where
  name : (Text.Utf8.encode name.toList).length < 0x10000
  bytes : bytes.length < 0x100000000

variable {data : Array UInt8} {name : String} {bytes : List UInt8}

theorem contentSize_stored (name : String) (bytes : List UInt8) :
    contentSize (ArchiveEntry.stored name bytes) = bytes.length := by
  rw [contentSize, ArchiveEntry.content_stored]

/-- The fields of an entry in front of the directory, one by one. -/
theorem entryBytes_stored (name : String) (bytes : List UInt8) :
    entryBytes (ArchiveEntry.stored name bytes) =
      entryMark ++ (bytesOfNat 2 20 ++ (bytesOfNat 2 0x800 ++ (bytesOfNat 2 0 ++ (bytesOfNat 4 0 ++
      (bytesOfNat 4 (checksum bytes).toNat ++ (bytesOfNat 4 bytes.length ++
      (bytesOfNat 4 bytes.length ++ (bytesOfNat 2 (Text.Utf8.encode name.toList).length ++
      (bytesOfNat 2 0 ++ (Text.Utf8.encode name.toList ++ bytes)))))))))) := by
  unfold entryBytes commonFields
  rw [contentSize_stored]
  simp only [List.append_assoc]
  rfl

/-- The fields of an entry of the directory, one by one. -/
theorem directoryBytes_stored (name : String) (bytes : List UInt8) (place : Nat) :
    directoryBytes (ArchiveEntry.stored name bytes) place =
      directoryMark ++ (bytesOfNat 2 20 ++ (bytesOfNat 2 20 ++ (bytesOfNat 2 0x800 ++
      (bytesOfNat 2 0 ++ (bytesOfNat 4 0 ++ (bytesOfNat 4 (checksum bytes).toNat ++
      (bytesOfNat 4 bytes.length ++ (bytesOfNat 4 bytes.length ++
      (bytesOfNat 2 (Text.Utf8.encode name.toList).length ++ (bytesOfNat 2 0 ++ (bytesOfNat 2 0 ++
      (bytesOfNat 2 0 ++ (bytesOfNat 2 0 ++ (bytesOfNat 4 0 ++ (bytesOfNat 4 place ++
      Text.Utf8.encode name.toList))))))))))))))) := by
  unfold directoryBytes commonFields
  rw [contentSize_stored]
  simp only [List.append_assoc]
  rfl

/-- What a directory says about a stored entry. -/
def listedStored (name : String) (bytes : List UInt8) (place : Nat) : Listed where
  nameBytes := Text.Utf8.encode name.toList
  name := name.toList
  comment := []
  locked := false
  isLink := false
  method := 0
  checksum := (checksum bytes).toNat
  size := bytes.length
  packedSize := bytes.length
  place

theorem listedAt_directoryBytes {offset place : Nat} (hfits : Fits name bytes)
    (hplace : place < 0x100000000)
    (h : Stands data offset (directoryBytes (ArchiveEntry.stored name bytes) place)) :
    listedAt data offset = some (listedStored name bytes place,
      offset + directorySize + (Text.Utf8.encode name.toList).length) := by
  rw [directoryBytes_stored] at h
  -- Field by field; a dash stands for one that is not read.
  obtain ⟨hmark, h⟩ := h.split (offset + 4) rfl
  obtain ⟨hmaker, h⟩ := h.split (offset + 6) rfl
  obtain ⟨-, h⟩ := h.split (offset + 8) rfl
  obtain ⟨hflags, h⟩ := h.split (offset + 10) rfl
  obtain ⟨hmethod, h⟩ := h.split (offset + 12) rfl
  obtain ⟨-, h⟩ := h.split (offset + 16) rfl
  obtain ⟨hchecksum, h⟩ := h.split (offset + 20) rfl
  obtain ⟨hpacked, h⟩ := h.split (offset + 24) rfl
  obtain ⟨hsize, h⟩ := h.split (offset + 28) rfl
  obtain ⟨hname, h⟩ := h.split (offset + 30) rfl
  obtain ⟨hfields, h⟩ := h.split (offset + 32) rfl
  obtain ⟨hcomment, h⟩ := h.split (offset + 34) rfl
  obtain ⟨-, h⟩ := h.split (offset + 36) rfl
  obtain ⟨-, h⟩ := h.split (offset + 38) rfl
  obtain ⟨hattributes, h⟩ := h.split (offset + 42) rfl
  obtain ⟨hoffset, h⟩ := h.split (offset + directorySize) rfl
  -- What is left is the name, and it is all there.
  have hend : offset + directorySize + (Text.Utf8.encode name.toList).length ≤ data.size :=
    h.le_size
  have hempty : ∀ n, (data.extract n n).toList = [] := by
    intro n
    simp
  have hflag : nameOf 0x800 = Text.Utf8.decodeLossy := by
    funext bytes
    rfl
  unfold listedAt
  simp only [hmark.standsAt_eq, hmaker.u2_eq (show 20 < 0x10000 by decide),
    hflags.u2_eq (show 0x800 < 0x10000 by decide), hmethod.u2_eq (show 0 < 0x10000 by decide),
    hchecksum.u4_eq (checksum bytes).toNat_lt, hpacked.u4_eq hfits.bytes,
    hsize.u4_eq hfits.bytes, hname.u2_eq hfits.name, hfields.u2_eq (show 0 < 0x10000 by decide),
    hcomment.u2_eq (show 0 < 0x10000 by decide), hattributes.u4_eq (show 0 < 0x100000000 by decide),
    hoffset.u4_eq hplace, h.extract_eq rfl, Nat.add_zero, hempty, hflag, Listed.withFields,
    Text.Utf8.decodeLossy_encode, Text.Utf8.decodeLossy_nil, Bool.true_and, hend, decide_true,
    if_true]
  rfl

/-- A listed entry leads to the bytes that it was written with. -/
theorem entry_listedStored {place : Nat} (hfits : Fits name bytes)
    (h : Stands data place (entryBytes (ArchiveEntry.stored name bytes))) :
    (listedStored name bytes place).entry data 0 = ArchiveEntry.stored name bytes := by
  rw [entryBytes_stored] at h
  have hplace : 0 + place = place := Nat.zero_add place
  obtain ⟨hmark, h⟩ := h.split (place + 4) rfl
  obtain ⟨-, h⟩ := h.split (place + 6) rfl
  obtain ⟨-, h⟩ := h.split (place + 8) rfl
  obtain ⟨-, h⟩ := h.split (place + 10) rfl
  obtain ⟨-, h⟩ := h.split (place + 14) rfl
  obtain ⟨-, h⟩ := h.split (place + 18) rfl
  obtain ⟨-, h⟩ := h.split (place + 22) rfl
  obtain ⟨-, h⟩ := h.split (place + 26) rfl
  obtain ⟨hname, h⟩ := h.split (place + 28) rfl
  obtain ⟨hfields, h⟩ := h.split (place + entrySize) rfl
  obtain ⟨-, hcontent⟩ := h.split _ rfl
  have hend : place + entrySize ≤ data.size := by
    have hsize := h.le_size
    omega
  unfold Listed.entry listedStored
  simp only [hplace, hmark.standsAt_eq, hname.u2_eq hfits.name,
    hfields.u2_eq (show 0 < 0x10000 by decide), Nat.add_zero, hcontent.slice_eq rfl, hend,
    String.ofList_toList, Bool.true_and, decide_true, if_true]
  rfl

/-! ## Section 3: The directory -/

/-- The archive of files that are stored as they are. -/
def ofFiles (files : List (String × List UInt8)) : Archive :=
  files.map fun (name, bytes) => ArchiveEntry.stored name bytes

theorem ofFiles_cons (name : String) (bytes : List UInt8) (files : List (String × List UInt8)) :
    ofFiles ((name, bytes) :: files) = ArchiveEntry.stored name bytes :: ofFiles files :=
  rfl

theorem names_ofFiles (files : List (String × List UInt8)) :
    (ofFiles files).map ArchiveEntry.name = files.map Prod.fst :=
  List.map_map

/-- Files are few and small enough for one directory. -/
structure IsSmall (files : List (String × List UInt8)) : Prop where
  count : files.length < 0xFFFF
  lengths : ∀ f ∈ files, (Text.Utf8.encode f.1.toList).length < 0x10000
  size : ((ofFiles files).flatMap entryBytes).length < 0xFFFFFFFF

theorem length_directoryBytes (name : String) (bytes : List UInt8) (place : Nat) :
    (directoryBytes (ArchiveEntry.stored name bytes) place).length =
      directorySize + (Text.Utf8.encode name.toList).length := by
  have hmark : directoryMark.length = 4 := rfl
  have hsize : directorySize = 46 := rfl
  rw [directoryBytes_stored]
  simp only [List.length_append, length_bytesOfNat]
  omega

theorem length_le_entryBytes (name : String) (bytes : List UInt8) :
    bytes.length ≤ (entryBytes (ArchiveEntry.stored name bytes)).length := by
  rw [entryBytes_stored]
  simp only [List.length_append]
  omega

/-- The directory is read entry by entry, and each one leads to its bytes. -/
theorem listFrom_directory {files : List (String × List UInt8)} {offset place : Nat}
    (hentries : Stands data place ((ofFiles files).flatMap entryBytes))
    (hlisting : Stands data offset (directory place (ofFiles files)))
    (hlengths : ∀ f ∈ files, (Text.Utf8.encode f.1.toList).length < 0x10000)
    (hsize : place + ((ofFiles files).flatMap entryBytes).length < 0x100000000) :
    listFrom data 0 offset files.length = some (ofFiles files) := by
  induction files generalizing offset place with
  | nil => rfl
  | cons f files ih =>
    obtain ⟨name, bytes⟩ := f
    obtain ⟨hlength, hlengths⟩ := List.forall_mem_cons.1 hlengths
    rw [ofFiles_cons, List.flatMap_cons] at hentries hsize
    rw [ofFiles_cons, directory] at hlisting
    rw [List.length_append] at hsize
    have hfits : Fits name bytes := by
      have hbytes := length_le_entryBytes name bytes
      exact ⟨hlength, by omega⟩
    obtain ⟨hentry, hentries⟩ := hentries.split _ rfl
    obtain ⟨hlisted, hlisting⟩ := hlisting.split _ rfl
    have hnext : offset + (directoryBytes (ArchiveEntry.stored name bytes) place).length =
        offset + directorySize + (Text.Utf8.encode name.toList).length := by
      rw [length_directoryBytes, Nat.add_assoc]
    rw [hnext] at hlisting
    have hrest := ih hentries hlisting hlengths (by omega)
    rw [List.length_cons, listFrom, listedAt_directoryBytes hfits (by omega) hlisted]
    simp only [hrest, entry_listedStored hfits hentry, Option.map_some]
    rfl

/-! ## Section 4: The end record -/

/-- Where no end record fits before the end of the data, none is found. -/
theorem listBefore_skip {place : Nat} (hsize : data.size = place + endSize) (k : Nat) :
    listBefore data (place + 1 + k) = listBefore data (place + 1) := by
  induction k with
  | zero => rfl
  | succ k ih =>
    have hnone : placeAt data (place + 1 + k) = none := by
      unfold placeAt
      rw [if_neg]
      simp only [Bool.and_eq_true, decide_eq_true_eq]
      omega
    rw [← Nat.add_assoc, listBefore, hnone]
    exact ih

theorem endBytes_eq (count length offset : Nat) :
    endBytes count length offset =
      endMark ++ (bytesOfNat 2 0 ++ (bytesOfNat 2 0 ++ (bytesOfNat 2 count ++
      (bytesOfNat 2 count ++ (bytesOfNat 4 length ++ (bytesOfNat 4 offset ++
      bytesOfNat 2 0)))))) := by
  unfold endBytes
  simp only [List.append_assoc]

/-- The first entry of a directory is found where the directory starts. -/
theorem findMark_directory {files : List (String × List UInt8)} {offset place count : Nat}
    (hfiles : files ≠ []) (h : Stands data offset (directory place (ofFiles files)))
    (hcount : 0 < count) : findMark data directoryMark offset count = some offset := by
  obtain ⟨⟨name, bytes⟩, files, rfl⟩ := List.exists_cons_of_ne_nil hfiles
  obtain ⟨count, rfl⟩ := Nat.exists_eq_add_of_lt hcount
  rw [ofFiles_cons, directory] at h
  obtain ⟨hfirst, -⟩ := h.split _ rfl
  rw [directoryBytes_stored] at hfirst
  obtain ⟨hmark, -⟩ := hfirst.split _ rfl
  rw [Nat.zero_add, findMark, hmark.standsAt_eq, if_pos rfl]

/-- The end record tells where the directory is. -/
theorem placeAt_endBytes {files : List (String × List UInt8)} {offset place : Nat}
    (hcount : files.length < 0xFFFF) (hoffset : offset < 0xFFFFFFFF)
    (hplace : offset + (directory 0 (ofFiles files)).length = place)
    (hlisting : Stands data offset (directory 0 (ofFiles files)))
    (h : Stands data place
      (endBytes files.length (directory 0 (ofFiles files)).length offset)) :
    placeAt data place = some ⟨files.length, offset, 0⟩ := by
  have hend : place + endSize ≤ data.size := by
    have hsize := h.le_size
    rw [endBytes_eq] at hsize
    simp only [List.length_append, length_bytesOfNat] at hsize
    exact hsize
  rw [endBytes_eq] at h
  obtain ⟨hmark, h⟩ := h.split (place + 4) rfl
  obtain ⟨hdisk, h⟩ := h.split (place + 6) rfl
  obtain ⟨hstart, h⟩ := h.split (place + 8) rfl
  obtain ⟨hhere, h⟩ := h.split (place + 10) rfl
  obtain ⟨hall, h⟩ := h.split (place + 12) rfl
  obtain ⟨-, h⟩ := h.split (place + 16) rfl
  obtain ⟨hfirst, hcomment⟩ := h.split (place + 20) rfl
  have hfew : u2 data (place + 10) = files.length := hall.u2_eq (by omega)
  have hlow : u4 data (place + 16) = offset := hfirst.u4_eq (by omega)
  have hnarrow : narrowPlace data place = some ⟨files.length, offset, 0⟩ := by
    unfold narrowPlace
    simp only [hdisk.u2_eq (show 0 < 0x10000 by decide), hstart.u2_eq (show 0 < 0x10000 by decide),
      hhere.u2_eq (show files.length < 0x10000 by omega), hfew, hlow]
    by_cases hfiles : files = []
    · subst hfiles
      have hnone : place - offset = 0 := by
        rw [← hplace]
        exact Nat.add_sub_cancel_left offset 0
      rw [hnone]
      rfl
    · have hlong : directorySize ≤ (directory 0 (ofFiles files)).length := by
        obtain ⟨⟨name, bytes⟩, rest, rfl⟩ := List.exists_cons_of_ne_nil hfiles
        rw [ofFiles_cons, directory, List.length_append, length_directoryBytes]
        omega
      have hsome : files.length ≠ 0 := fun h => hfiles (List.eq_nil_of_length_eq_zero h)
      have hroom : 0 < place - 3 - offset := by
        unfold directorySize at hlong
        omega
      rw [findMark_directory hfiles hlisting hroom]
      simp [hsome]
  unfold placeAt
  rw [hfew, hlow, hnarrow, hmark.standsAt_eq, hcomment.u2_eq (show 0 < 0x10000 by decide)]
  have hnotAll : (files.length = 0xFFFF) = False := eq_false (by omega)
  have hnotLow : (offset = absent) = False := eq_false (by unfold absent; omega)
  simp [hnotAll, hnotLow, hend]

theorem length_endBytes (count length offset : Nat) :
    (endBytes count length offset).length = endSize := by
  rw [endBytes_eq]
  simp only [List.length_append, length_bytesOfNat]
  rfl

/-- The entries of a written archive are listed in it, whatever their names are. -/
theorem listing_write {files : List (String × List UInt8)} (h : IsSmall files) :
    listing (write (ofFiles files)) = some (ofFiles files) := by
  generalize hdata : (write (ofFiles files)).toArray = data
  generalize hplace : ((ofFiles files).flatMap entryBytes).length +
    (directory 0 (ofFiles files)).length = place
  have hwrite : data.toList = (ofFiles files).flatMap entryBytes ++ (directory 0 (ofFiles files) ++
      endBytes files.length (directory 0 (ofFiles files)).length
        ((ofFiles files).flatMap entryBytes).length) := by
    rw [← hdata, write, List.append_assoc, ofFiles, List.length_map]
  have hall : Stands data 0 data.toList := ⟨[], [], by simp, rfl⟩
  rw [hwrite] at hall
  obtain ⟨hentries, hrest⟩ := hall.split _ (Nat.zero_add _)
  obtain ⟨hlisting, hend⟩ := hrest.split _ hplace
  have hsize : data.size = place + endSize := by
    have hlength := congrArg List.length hwrite
    rw [Array.length_toList, List.length_append, List.length_append, length_endBytes] at hlength
    omega
  have hlow : 0 + ((ofFiles files).flatMap entryBytes).length < 0x100000000 := by
    have := h.size
    omega
  have hlisted : listFrom data 0 ((ofFiles files).flatMap entryBytes).length files.length =
      some (ofFiles files) :=
    listFrom_directory hentries hlisting h.lengths hlow
  -- There is no room for an end record behind this one.
  have hskip := listBefore_skip hsize 21
  rw [listing, hdata, hsize]
  show listBefore data (place + 1 + 21) = _
  rw [hskip, listBefore, placeAt_endBytes h.count h.size hplace hlisting hend, Option.bind_some]
  simp only [Nat.add_zero, hlisted]

/-- A written archive of files of different names is read back. -/
theorem read_write {files : List (String × List UInt8)} (h : IsSmall files)
    (hnames : (files.map Prod.fst).Nodup) :
    read (write (ofFiles files)) = some (ofFiles files) :=
  read_of_listing (listing_write h) (by rwa [names_ofFiles])

end TypeCatalog.Archive
