import ModularBootloader.OwfsFaults
import ModularBootloader.OwfsBounds
import ModularBootloader.OwfsDeterminism
import ModularBootloader.OwfsMounted
import ModularBootloader.OwfsNames
import ModularBootloader.MenuStatus
import ModularBootloader.MenuClock
import ModularBootloader.RoundTrip
import ModularBootloader.MkfsBounds
import ModularBootloader.Kmain
import ModularBootloader.OwfsExact
import ModularBootloader.OwfsBurst
import ModularBootloader.GopGrid
import ModularBootloader.MkfsAccounting
import ModularBootloader.DiagLog
import ModularBootloader.CrcAgree
import ModularBootloader.Kbd
import ModularBootloader.InitBlockIo
import ModularBootloader.InitGop
import ModularBootloader.EspRoundTrip
import ModularBootloader.EspImage
import ModularBootloader.Footprint
import ModularBootloader.BootChoice
import ModularBootloader.FailScreen
import ModularBootloader.Sutf8Canonical
import ModularBootloader.SucsMode
import ModularBootloader.MenuCursor
import ModularBootloader.MkfsChecksum
import ModularBootloader.Terminal
import ModularBootloader.Unattended
import ModularBootloader.MkfsReads
