import PermissionedDex.Runtime
import PermissionedDex.Dex
import PermissionedDex.Context
import PermissionedDex.Middleware
import PermissionedDex.Proxy
import PermissionedDex.Trace
import PermissionedDex.Run
import PermissionedDex.Chain
import PermissionedDex.Signers
import PermissionedDex.Approval
import PermissionedDex.Bump
import PermissionedDex.Bounds
import PermissionedDex.Outcome
import PermissionedDex.AssertOwner
import PermissionedDex.Provenance
import PermissionedDex.Errors
import PermissionedDex.Gate
import PermissionedDex.Aborts
import PermissionedDex.Transactions
