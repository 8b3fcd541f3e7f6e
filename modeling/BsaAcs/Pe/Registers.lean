import BsaAcs.Interface

-- How the tests get the translation attributes of the PE: `val_pe_reg_read_tcr`.

namespace Pe

end Pe
