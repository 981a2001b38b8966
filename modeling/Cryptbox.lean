import Cryptbox.Migrate.NoLostUpdate
import Cryptbox.Migrate.Consistency
import Cryptbox.Migrate.Retire
import Cryptbox.Migrate.Legacy
import Cryptbox.Opening
import Cryptbox.Stages
import Cryptbox.Sizes
import Cryptbox.Padding.Inverse
import Cryptbox.Keyring
import Cryptbox.Blind.Consistency
import Cryptbox.Blind.Canonical
import Cryptbox.History
import Cryptbox.Record.Isolation
import Cryptbox.Typed
import Cryptbox.Migrate.FixedPoint
import Cryptbox.Migrate.Authentic
import Cryptbox.Migrate.Refusal
import Cryptbox.Migrate.Apart
import Cryptbox.Migrate.Agreement
import Cryptbox.Migrate.Interrupted
import Cryptbox.Migrate.Packaged
import Cryptbox.Blind.Normalizer
import Cryptbox.Codec.Buffer
import Cryptbox.Derive.Expansion
import Cryptbox.Derive.Specs
import Cryptbox.Migrate.Quoting
import Cryptbox.Schema.Unique
import Cryptbox.Searchable.Rotation
import Cryptbox.Searchable.Window
import Cryptbox.Migrate.SweptTables
import Cryptbox.Key.Text
import Cryptbox.Serde
import Cryptbox.Derive.Expand
