import Monios.Model.Fat32.File

/-!
# The FAT32 driver: checking a volume

`fat32_chkdsk`: the second FAT is made equal to the first, the directory tree is walked
and its clusters are marked, and clusters that are in use but not marked are saved to
`/FOUND.000` and freed.

The mark arrays of the source have an entry for each of 262144 clusters and are cleared up
to, not including, the number of clusters of the volume; here they are functions, so the
one cluster that a volume of the largest size has beyond their end is not modelled.  Nor is
the overflow of the recovery buffer, which holds 64 sectors and is filled with up to 64
clusters.
-/

set_option autoImplicit false

namespace Monios.Model

open Monios.Library

def fat32ChkMaxClusters : Nat := 262144

end Monios.Model
